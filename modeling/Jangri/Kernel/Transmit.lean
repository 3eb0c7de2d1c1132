import Jangri.Lib.Run
import Jangri.Arch.Mapping
import Jangri.Kernel.Traps

/-! `TX_BUSY`: the flag that `write_char` holds while it transmits a byte.

The code that prints is interrupted between any two of its accesses. The handler runs with
interrupts disabled on the only hart, so nothing runs beside it, and a flag that it finds held
stays held. -/

namespace Jangri

open Lib

structure Serial where
  txBusy : Bool
  transmitted : List UInt8
  cursorPosition : Nat
  inputBuffer : List UInt8
  deriving DecidableEq

inductive Access
  | acquire
  | write (byte : UInt8)
  | release
  deriving DecidableEq

namespace Serial

def access : Access → Stateful Serial Unit
  | .acquire => fun s =>
      -- the compare-exchange spins while the flag is set
      if s.txBusy then .error .diverge else .ok ((), { s with txBusy := true })
  | .write byte => fun s => .ok ((), { s with transmitted := s.transmitted ++ [byte] })
  | .release => fun s => .ok ((), { s with txBusy := false })

def writeCharAccesses (byte : UInt8) : List Access := [.acquire, .write byte, .release]

def writeChar (byte : UInt8) : Stateful Serial Unit := do
  access .acquire
  access (.write byte)
  access .release

def printed (byte : UInt8) : List UInt8 :=
  if byte = 10 ∨ byte = 13 then [10, 13]
  else if byte = 0x7f ∨ byte = 0x08 then [0x7f, 32, 0x7f]
  else [byte]

def consoleWriteAccesses (text : List UInt8) : List Access :=
  (text.flatMap printed).flatMap writeCharAccesses

def cursor : Stateful Serial Nat := fun s => .ok (s.cursorPosition, s)

def setCursor (cursorPosition : Nat) : Stateful Serial Unit := fun s =>
  .ok ((), { s with cursorPosition })

def enqueue (byte : UInt8) : Stateful Serial Unit := fun s =>
  .ok ((), { s with inputBuffer := Uart.enqueue s.inputBuffer byte })

def receive (v : UInt8) : Stateful Serial Unit :=
  if v = 10 ∨ v = 13 then do
    writeChar 10
    writeChar 13
    enqueue 10
  else if v = 0x7f ∨ v = 0x08 then do
    let position ← cursor
    if position > 0 then do
      writeChar 8
      writeChar 32
      writeChar 8
      enqueue 8
      let position ← liftRust (usizeSub position 1)
      setCursor position
    else pure ()
  else do
    writeChar v
    let position ← cursor
    let position ← liftRust (usizeAdd position 1)
    setCursor position
    enqueue v

def receiveAll : List (UInt8 × UInt8) → Stateful Serial Unit
  | [] => pure ()
  | (lsr, rbr) :: polls =>
      if lsr &&& 1 = 1 then do
        receive rbr
        receiveAll polls
      else pure ()

def transmitterEmpty (lsr : UInt8) : Prop := lsr &&& ((1 : UInt8) <<< 5) ≠ 0

instance (lsr : UInt8) : Decidable (transmitterEmpty lsr) := inferInstanceAs (Decidable (_ ≠ _))

def handleInterrupt (lsr : UInt8) (polls : List (UInt8 × UInt8)) : Stateful Serial Unit := do
  if transmitterEmpty lsr then access .release else pure ()
  receiveAll polls

def received (polls : List (UInt8 × UInt8)) : List UInt8 :=
  (polls.takeWhile fun poll => poll.1 &&& 1 = 1).map Prod.snd

/-- A byte is echoed unless it deletes at the start of the line. -/
def IsEchoed (cursorPosition : Nat) (byte : UInt8) : Prop :=
  byte = 0x7f ∨ byte = 0x08 → 0 < cursorPosition

instance (cursorPosition : Nat) (byte : UInt8) : Decidable (IsEchoed cursorPosition byte) :=
  inferInstanceAs (Decidable (_ → _))

section Writing

variable {s : Serial}

theorem acquire_free (free : s.txBusy = false) :
    access .acquire s = .ok ((), { s with txBusy := true }) :=
  if_neg (Bool.not_eq_true _ ▸ free)

theorem acquire_held (held : s.txBusy = true) : access .acquire s = .error .diverge := if_pos held

theorem writeChar_free (byte : UInt8) (free : s.txBusy = false) :
    writeChar byte s = .ok ((), { s with transmitted := s.transmitted ++ [byte] }) := by
  have released : { s with transmitted := s.transmitted ++ [byte], txBusy := false } =
      { s with transmitted := s.transmitted ++ [byte] } := by
    rw [free]
  change access .acquire s >>= _ = _
  rw [acquire_free free, ← released]
  rfl

theorem writeChar_held (byte : UInt8) (held : s.txBusy = true) :
    writeChar byte s = .error .diverge := by
  change access .acquire s >>= _ = _
  rw [acquire_held held]
  rfl

theorem bind_held {byte : UInt8} {α : Type} {next : Unit → Stateful Serial α}
    (held : s.txBusy = true) : (writeChar byte >>= next) s = .error .diverge := by
  change writeChar byte s >>= _ = _
  rw [writeChar_held byte held]
  rfl

theorem wp_writeChar {halts : Halt → Prop} (byte : UInt8) (post : Unit → Serial → Prop)
    (free : s.txBusy = false)
    (next : post () { s with transmitted := s.transmitted ++ [byte] }) :
    wp (writeChar byte) post halts s := by
  rw [wp_def, writeChar_free byte free]
  exact next

end Writing

section Handling

variable {s : Serial}

theorem wp_receive (v : UInt8) (free : s.txBusy = false) :
    wp (receive v) (fun _ t => t.txBusy = false) (fun e => e = .panic .overflow) s := by
  rw [receive]
  by_cases isLine : v = 10 ∨ v = 13
  · rw [if_pos isLine, wp_bind]
    apply wp_writeChar
    case free => exact free
    rw [wp_bind]
    apply wp_writeChar
    case free => exact free
    rw [wp_def, enqueue]
    exact free
  · rw [if_neg isLine]
    by_cases deletes : v = 0x7f ∨ v = 0x08
    · rw [if_pos deletes, wp_bind, wp_def, cursor]
      simp only
      by_cases behind : s.cursorPosition > 0
      · rw [if_pos behind, wp_bind]
        apply wp_writeChar
        case free => exact free
        rw [wp_bind]
        apply wp_writeChar
        case free => exact free
        rw [wp_bind]
        apply wp_writeChar
        case free => exact free
        rw [wp_bind, wp_def, enqueue]
        simp only
        have low : 1 ≤ s.cursorPosition := behind
        rw [wp_bind, wp_liftRust, usizeSub, if_pos low, pure_eq_ok]
        simp only
        rw [wp_def, setCursor]
        exact free
      · rw [if_neg behind, wp_pure]
        exact free
    · rw [if_neg deletes, wp_bind]
      apply wp_writeChar
      case free => exact free
      rw [wp_bind, wp_def, cursor]
      simp only
      rw [wp_bind, wp_liftRust, usizeAdd]
      by_cases fits : s.cursorPosition + 1 < usizeBound
      · rw [if_pos fits, pure_eq_ok]
        simp only
        rw [wp_bind, wp_def, setCursor]
        simp only
        rw [wp_def, enqueue]
        exact free
      · rw [if_neg fits]
        rfl

/-- With a held flag the first byte that is echoed is waited for without an end. -/
theorem receive_held (v : UInt8) (held : s.txBusy = true) :
    receive v s = if IsEchoed s.cursorPosition v then .error .diverge else .ok ((), s) := by
  rw [receive]
  by_cases isLine : v = 10 ∨ v = 13
  · have echoed : IsEchoed s.cursorPosition v := by
      intro deletes
      rcases isLine with rfl | rfl
      · exact absurd deletes (by decide)
      · exact absurd deletes (by decide)
    rw [if_pos isLine, if_pos echoed]
    exact bind_held held
  · rw [if_neg isLine]
    by_cases deletes : v = 0x7f ∨ v = 0x08
    · rw [if_pos deletes]
      by_cases behind : s.cursorPosition > 0
      · have echoed : IsEchoed s.cursorPosition v := fun _ => behind
        rw [if_pos echoed]
        change (if s.cursorPosition > 0 then _ else _ : Stateful Serial Unit) s = _
        rw [if_pos behind]
        exact bind_held held
      · have dropped : ¬ IsEchoed s.cursorPosition v := fun echoed => behind (echoed deletes)
        rw [if_neg dropped]
        change (if s.cursorPosition > 0 then _ else _ : Stateful Serial Unit) s = _
        rw [if_neg behind]
        rfl
    · have echoed : IsEchoed s.cursorPosition v := fun h => absurd h deletes
      rw [if_neg deletes, if_pos echoed]
      exact bind_held held

theorem received_cons (lsr rbr : UInt8) (polls : List (UInt8 × UInt8)) :
    received ((lsr, rbr) :: polls) = if lsr &&& 1 = 1 then rbr :: received polls else [] := by
  rw [received, List.takeWhile_cons]
  by_cases ready : lsr &&& 1 = 1
  · rw [if_pos ready, if_pos (decide_eq_true ready)]
    rfl
  · rw [if_neg ready, if_neg (by simpa using ready)]
    rfl

theorem wp_receiveAll (polls : List (UInt8 × UInt8)) (free : s.txBusy = false) :
    wp (receiveAll polls) (fun _ t => t.txBusy = false) (fun e => e = .panic .overflow) s := by
  induction polls generalizing s with
  | nil =>
      rw [receiveAll, wp_pure]
      exact free
  | cons poll polls ih =>
      rw [receiveAll]
      by_cases ready : poll.1 &&& 1 = 1
      · rw [if_pos ready, wp_bind]
        apply wp_weaken (wp_receive poll.2 free)
        intro _ t still
        exact ih still
      · rw [if_neg ready, wp_pure]
        exact free

theorem receiveAll_held (polls : List (UInt8 × UInt8)) (held : s.txBusy = true) :
    receiveAll polls s = if ∃ byte ∈ received polls, IsEchoed s.cursorPosition byte then
      .error .diverge else .ok ((), s) := by
  induction polls with
  | nil => rfl
  | cons poll polls ih =>
      rw [receiveAll, received_cons]
      by_cases ready : poll.1 &&& 1 = 1
      · rw [if_pos ready, if_pos ready]
        simp only [List.exists_mem_cons_iff]
        by_cases first : IsEchoed s.cursorPosition poll.2
        · have spins : receive poll.2 s = .error .diverge := by
            rw [receive_held poll.2 held, if_pos first]
          rw [if_pos (Or.inl first)]
          change receive poll.2 s >>= _ = _
          rw [spins]
          rfl
        · have passed : receive poll.2 s = .ok ((), s) := by
            rw [receive_held poll.2 held, if_neg first]
          have tail : receiveAll (poll :: polls) s = receiveAll polls s := by
            rw [receiveAll, if_pos ready]
            change receive poll.2 s >>= _ = _
            rw [passed]
            rfl
          rw [receiveAll, if_pos ready] at tail
          rw [tail, ih]
          simp only [first, false_or]
      · rw [if_neg ready, if_neg ready]
        rfl

/-- With a free flag, or an empty transmitter, the handler does not wait, and leaves the flag free. -/
theorem wp_handleInterrupt (lsr : UInt8) (polls : List (UInt8 × UInt8))
    (free : s.txBusy = false ∨ transmitterEmpty lsr) :
    wp (handleInterrupt lsr polls) (fun _ t => t.txBusy = false) (fun e => e = .panic .overflow) s := by
  rw [handleInterrupt]
  by_cases empty : transmitterEmpty lsr
  · rw [if_pos empty, wp_bind, wp_def, access]
    exact wp_receiveAll polls rfl
  · rw [if_neg empty]
    exact wp_receiveAll polls (free.resolve_right empty)

theorem handleInterrupt_held (lsr : UInt8) (polls : List (UInt8 × UInt8))
    (held : s.txBusy = true) (full : ¬ transmitterEmpty lsr) :
    handleInterrupt lsr polls s =
      if ∃ byte ∈ received polls, IsEchoed s.cursorPosition byte then .error .diverge
      else .ok ((), s) := by
  rw [handleInterrupt, if_neg full]
  exact receiveAll_held polls held

end Handling

section Kernel

def ofState (s : GlobalState) : Serial := ⟨false, s.console, s.cursorPosition, s.inputBuffer⟩

/-- With a free flag the handler receives as the kernel does, for which there is no flag. -/
theorem receive_ofState (s : GlobalState) (v : UInt8) :
    receive v (ofState s) = (Uart.receive s v).map fun t => ((), ofState t) := by
  rw [receive, Uart.receive]
  by_cases isLine : v = 10 ∨ v = 13
  · rw [if_pos isLine, if_pos isLine]
    change Except.ok _ = Except.ok _
    simp [ofState]
  · rw [if_neg isLine, if_neg isLine]
    by_cases deletes : v = 0x7f ∨ v = 0x08
    · rw [if_pos deletes, if_pos deletes]
      change (if s.cursorPosition > 0 then _ else _ : Stateful Serial Unit) _ = _
      by_cases behind : s.cursorPosition > 0
      · have left : usizeSub (ofState s).cursorPosition 1 = .ok (s.cursorPosition - 1) :=
          if_pos behind
        have right : usizeSub s.cursorPosition 1 = .ok (s.cursorPosition - 1) := if_pos behind
        rw [if_pos behind, if_pos behind, left, right]
        change Except.ok _ = Except.ok _
        simp [ofState]
      · rw [if_neg behind, if_neg behind]
        rfl
    · rw [if_neg deletes, if_neg deletes]
      have echoed : (writeChar v >>= fun _ => cursor >>= fun position =>
            liftRust (usizeAdd position 1) >>= fun position => setCursor position >>= fun _ =>
            enqueue v) (ofState s) =
          (liftRust (usizeAdd s.cursorPosition 1) >>= fun position => setCursor position >>= fun _ =>
            enqueue v) { ofState s with transmitted := s.console ++ [v] } := rfl
      refine echoed.trans ?_
      cases usizeAdd s.cursorPosition 1 with
      | error e => rfl
      | ok position => rfl

theorem handleInterrupt_ofState (s : GlobalState) (lsr : UInt8) (polls : List (UInt8 × UInt8)) :
    handleInterrupt lsr polls (ofState s) =
      ((received polls).foldlM Uart.receive s).map fun t => ((), ofState t) := by
  have released : handleInterrupt lsr polls (ofState s) = receiveAll polls (ofState s) := by
    rw [handleInterrupt]
    by_cases empty : transmitterEmpty lsr
    · rw [if_pos empty]
      rfl
    · rw [if_neg empty]
  rw [released]
  clear released
  induction polls generalizing s with
  | nil => rfl
  | cons poll polls ih =>
      rw [receiveAll, received_cons]
      by_cases ready : poll.1 &&& 1 = 1
      · rw [if_pos ready, if_pos ready, List.foldlM_cons]
        change receive poll.2 (ofState s) >>= _ = _
        rw [receive_ofState]
        cases Uart.receive s poll.2 with
        | error e => rfl
        | ok t => exact ih t
      · rw [if_neg ready, if_neg ready]
        rfl

end Kernel

end Serial

/-- The hart: what the printing code has still to do, and whether the handler waits in a
`write_char` that cannot go on. -/
structure SerialHart where
  serial : Serial
  /-- `sstatus.SIE`. -/
  enabled : Bool
  rest : List Access
  spinning : Bool
  deriving DecidableEq

inductive SerialAction
  | consoleWrite (text : List UInt8)
  | advance
  | setInterrupts (status : Bool)
  | interrupt (lsr : UInt8) (polls : List (UInt8 × UInt8))

namespace SerialHart

def advance (h : SerialHart) : Option SerialHart :=
  match h.rest with
  | [] => none
  | first :: rest =>
      match Serial.access first h.serial with
      | .ok (_, serial) => some { h with serial, rest }
      | .error _ => none

/-- The handler from its entry to its return, or up to where it spins. A panic ends the run. -/
def interrupt (h : SerialHart) (lsr : UInt8) (polls : List (UInt8 × UInt8)) : Option SerialHart :=
  match Serial.handleInterrupt lsr polls h.serial with
  | .ok (_, serial) => some { h with serial }
  | .error .diverge => some { h with spinning := true }
  | .error _ => none

def respond (h : SerialHart) : SerialAction → Option SerialHart
  | .consoleWrite text =>
      if h.rest = [] then some { h with rest := Serial.consoleWriteAccesses text } else none
  | .advance => h.advance
  | .setInterrupts status => if h.rest = [] then some { h with enabled := status } else none
  | .interrupt lsr polls => if h.enabled then h.interrupt lsr polls else none

def step (h : SerialHart) (action : SerialAction) : Option SerialHart :=
  if h.spinning then none else h.respond action

def Steps (h : SerialHart) (action : SerialAction) (h' : SerialHart) : Prop :=
  h.step action = some h'

instance (h : SerialHart) (action : SerialAction) (h' : SerialHart) : Decidable (Steps h action h') :=
  inferInstanceAs (Decidable (_ = _))

structure Fresh (h : SerialHart) : Prop where
  free : h.serial.txBusy = false
  rest : h.rest = []
  runs : h.spinning = false

/-- The printing code is between its compare-exchange and its store. -/
def InWindow (h : SerialHart) : Prop :=
  ∃ byte rest, h.rest = .write byte :: .release :: rest ∨ h.rest = .release :: rest

inductive Place : Bool → List Access → Prop
  | outside (bytes : List UInt8) : Place false (bytes.flatMap Serial.writeCharAccesses)
  | acquired (busy : Bool) (byte : UInt8) (bytes : List UInt8) :
      Place busy (.write byte :: .release :: bytes.flatMap Serial.writeCharAccesses)
  | written (busy : Bool) (bytes : List UInt8) :
      Place busy (.release :: bytes.flatMap Serial.writeCharAccesses)

def LeavesFree (h : SerialHart) (action : SerialAction) : Prop :=
  ∀ lsr polls, action = .interrupt lsr polls → h.serial.txBusy = false →
    ∀ h', h.interrupt lsr polls = some h' → h'.serial.txBusy = false

/-- The interrupt is taken in the window, with the flag held and the transmitter not empty, and
receives a byte that is echoed. -/
def Blocks (h : SerialHart) (action : SerialAction) : Prop :=
  ∃ lsr polls, action = .interrupt lsr polls ∧ h.InWindow ∧ h.serial.txBusy = true ∧
    ¬ Serial.transmitterEmpty lsr ∧
    ∃ byte ∈ Serial.received polls, Serial.IsEchoed h.serial.cursorPosition byte

structure NoDeadlock (trace : List (SerialHart × SerialAction)) (t : SerialHart) : Prop where
  runs : ∀ u ∈ Run.visited trace t, u.spinning = false
  free : ∀ p ∈ trace, LeavesFree p.1 p.2

section Runs

variable {h h' : SerialHart} {action : SerialAction}

theorem Place.free {busy : Bool} {rest : List Access} (place : Place busy rest) :
    Place false rest := by
  cases place with
  | outside bytes => exact .outside bytes
  | acquired _ byte bytes => exact .acquired false byte bytes
  | written _ bytes => exact .written false bytes

theorem Place.inWindow {busy : Bool} {rest : List Access} (place : Place busy rest)
    (held : busy = true) (same : h.rest = rest) : h.InWindow := by
  cases place with
  | outside bytes => cases held
  | acquired _ byte bytes => exact ⟨byte, _, Or.inl same⟩
  | written _ bytes => exact ⟨0, _, Or.inr same⟩

theorem Place.idle {busy : Bool} (place : Place busy []) : busy = false := by
  generalize none_ : ([] : List Access) = rest at place
  cases place with
  | outside bytes => rfl
  | acquired _ byte bytes => cases none_
  | written _ bytes => cases none_

theorem place_advance (place : Place h.serial.txBusy h.rest) (taken : h.advance = some h') :
    Place h'.serial.txBusy h'.rest ∧ h'.spinning = h.spinning := by
  generalize held : h.serial.txBusy = busy at place
  generalize same : h.rest = rest at place
  rw [advance, same] at taken
  cases place with
  | outside bytes =>
      cases bytes with
      | nil => cases taken
      | cons byte bytes =>
          rw [List.flatMap_cons, Serial.writeCharAccesses] at taken
          simp only [List.cons_append, List.nil_append, Serial.acquire_free held] at taken
          cases taken
          exact ⟨.acquired true byte bytes, rfl⟩
  | acquired _ byte bytes =>
      cases taken
      exact ⟨.written _ bytes, rfl⟩
  | written _ bytes =>
      cases taken
      exact ⟨.outside bytes, rfl⟩

theorem interrupt_returns (lsr : UInt8) (polls : List (UInt8 × UInt8))
    (free : h.serial.txBusy = false ∨ Serial.transmitterEmpty lsr)
    (taken : h.interrupt lsr polls = some h') :
    h'.serial.txBusy = false ∧ h'.rest = h.rest ∧ h'.spinning = h.spinning := by
  have spec := Serial.wp_handleInterrupt lsr polls free
  rw [wp_def] at spec
  rw [interrupt] at taken
  cases ran : Serial.handleInterrupt lsr polls h.serial with
  | ok result =>
      rw [ran] at spec taken
      cases taken
      exact ⟨spec, rfl, rfl⟩
  | error e =>
      rw [ran] at spec taken
      cases spec
      cases taken

theorem interrupt_held (lsr : UInt8) (polls : List (UInt8 × UInt8))
    (held : h.serial.txBusy = true) (full : ¬ Serial.transmitterEmpty lsr)
    (taken : h.interrupt lsr polls = some h') :
    h'.serial = h.serial ∧ h'.rest = h.rest ∧ (h'.spinning = false ↔ h.spinning = false ∧
      ¬ ∃ byte ∈ Serial.received polls, Serial.IsEchoed h.serial.cursorPosition byte) := by
  rw [interrupt, Serial.handleInterrupt_held lsr polls held full] at taken
  by_cases echoes : ∃ byte ∈ Serial.received polls, Serial.IsEchoed h.serial.cursorPosition byte
  · rw [if_pos echoes] at taken
    cases taken
    exact ⟨rfl, rfl, by simp [echoes]⟩
  · rw [if_neg echoes] at taken
    cases taken
    exact ⟨rfl, rfl, by simp [echoes]⟩

theorem responds (taken : Steps h action h') :
    h.spinning = false ∧ h.respond action = some h' := by
  rw [Steps, step] at taken
  by_cases spins : h.spinning = true
  · rw [if_pos spins] at taken
    cases taken
  · rw [if_neg spins] at taken
    exact ⟨Bool.not_eq_true _ ▸ spins, taken⟩

theorem place_other (place : Place h.serial.txBusy h.rest)
    (other : ∀ lsr polls, action ≠ .interrupt lsr polls) (taken : h.respond action = some h') :
    Place h'.serial.txBusy h'.rest ∧ h'.spinning = h.spinning := by
  cases action with
  | consoleWrite text =>
      rw [respond] at taken
      by_cases idle : h.rest = []
      · rw [if_pos idle] at taken
        cases taken
        have free : h.serial.txBusy = false := Place.idle (idle ▸ place)
        constructor
        · simp only [free]
          exact .outside _
        · rfl
      · rw [if_neg idle] at taken
        cases taken
  | advance => exact place_advance place taken
  | setInterrupts status =>
      rw [respond] at taken
      by_cases idle : h.rest = []
      · rw [if_pos idle] at taken
        cases taken
        exact ⟨place, rfl⟩
      · rw [if_neg idle] at taken
        cases taken
  | interrupt lsr polls => exact absurd rfl (other lsr polls)

theorem interrupt_of_responds {lsr : UInt8} {polls : List (UInt8 × UInt8)}
    (taken : h.respond (.interrupt lsr polls) = some h') : h.interrupt lsr polls = some h' := by
  rw [respond] at taken
  by_cases enabled : h.enabled = true
  · rw [if_pos enabled] at taken
    exact taken
  · rw [if_neg enabled] at taken
    cases taken

theorem leavesFree (h : SerialHart) (action : SerialAction) : LeavesFree h action := by
  intro lsr polls _ free h' taken
  exact (interrupt_returns lsr polls (Or.inl free) taken).1

theorem interrupt_or (action : SerialAction) :
    (∃ lsr polls, action = .interrupt lsr polls) ∨ ∀ lsr polls, action ≠ .interrupt lsr polls := by
  by_cases interrupt_ : ∃ lsr polls, action = .interrupt lsr polls
  · exact Or.inl interrupt_
  · exact Or.inr fun lsr polls same => interrupt_ ⟨lsr, polls, same⟩

theorem place_step (place : Place h.serial.txBusy h.rest) (taken : Steps h action h') :
    Place h'.serial.txBusy h'.rest := by
  have responded := (responds taken).2
  rcases interrupt_or action with ⟨lsr, polls, rfl⟩ | other
  · have handled := interrupt_of_responds responded
    by_cases free : h.serial.txBusy = false ∨ Serial.transmitterEmpty lsr
    · rcases interrupt_returns lsr polls free handled with ⟨freed, rest, -⟩
      rw [freed, rest]
      exact place.free
    · rw [not_or, Bool.not_eq_false] at free
      rcases interrupt_held lsr polls free.1 free.2 handled with ⟨same, rest, -⟩
      rw [same, rest]
      exact place
  · exact (place_other place other responded).1

/-- The handler spins in the step of an interrupt that blocks, and in no other. -/
theorem spins_iff (place : Place h.serial.txBusy h.rest) (taken : Steps h action h') :
    h'.spinning = false ↔ ¬ Blocks h action := by
  rcases responds taken with ⟨runs, responded⟩
  rcases interrupt_or action with ⟨lsr, polls, rfl⟩ | other
  · have handled := interrupt_of_responds responded
    by_cases free : h.serial.txBusy = false ∨ Serial.transmitterEmpty lsr
    · apply iff_of_true
      · exact (interrupt_returns lsr polls free handled).2.2.trans runs
      · intro blocks
        rcases blocks with ⟨lsr', polls', same, -, held, full, -⟩
        cases same
        rcases free with free | empty
        · rw [free] at held
          cases held
        · exact full empty
    · rw [not_or, Bool.not_eq_false] at free
      rw [(interrupt_held lsr polls free.1 free.2 handled).2.2, and_iff_right runs]
      apply not_congr
      constructor
      · intro echoes
        exact ⟨lsr, polls, rfl, place.inWindow free.1 rfl, free.1, free.2, echoes⟩
      · intro blocks
        rcases blocks with ⟨lsr', polls', same, -, -, -, echoes⟩
        cases same
        exact echoes
  · rw [(place_other place other responded).2]
    apply iff_of_true runs
    intro blocks
    rcases blocks with ⟨lsr, polls, same, -⟩
    exact other lsr polls same

theorem place_fresh (fresh : h.Fresh) : Place h.serial.txBusy h.rest := by
  rw [fresh.free, fresh.rest]
  exact .outside []

end Runs

end SerialHart

open SerialHart in
/-- The handler never waits for the code that it interrupted exactly if no interrupt is taken in the
window of a `write_char` with the transmitter not empty and a byte to echo. -/
theorem no_deadlock_iff {h t : SerialHart} {trace : List (SerialHart × SerialAction)}
    (fresh : h.Fresh) (run : Run Steps h trace t) :
    NoDeadlock trace t ↔ ∀ p ∈ trace, ¬ Blocks p.1 p.2 := by
  have runs := run.fair_iff (fun u => Place u.serial.txBusy u.rest) (fun u => u.spinning = false)
    LeavesFree (fun u action => ¬ Blocks u action) (place_fresh fresh) fresh.runs
    (fun _ _ _ place taken => place_step place taken)
    (fun u action _ place _ taken => by
      rw [← spins_iff place taken]
      exact and_iff_left (leavesFree u action))
  rw [← runs]
  constructor
  · intro safe
    exact ⟨safe.runs, safe.free⟩
  · intro safe
    exact ⟨safe.1, safe.2⟩

namespace SerialHart

def idle : SerialHart := ⟨⟨false, [], 0, []⟩, true, [], false⟩

theorem idle_fresh : idle.Fresh := ⟨rfl, rfl, rfl⟩

def called : SerialHart := { idle with rest := Serial.writeCharAccesses 97 }

def acquired : SerialHart := ⟨⟨true, [], 0, []⟩, true, [.write 97, .release], false⟩

def printing (lsr : UInt8) : List (SerialHart × SerialAction) :=
  [(idle, .consoleWrite [97]), (called, .advance), (acquired, .interrupt lsr [(1, 98)])]

theorem printing_run {lsr : UInt8} {t : SerialHart}
    (taken : Steps acquired (.interrupt lsr [(1, 98)]) t) : Run Steps idle (printing lsr) t := by
  have first : Run Steps idle [(idle, .consoleWrite [97])] called := Run.single rfl
  have acquires : Steps called .advance acquired := by decide
  have second := first.snoc SerialAction.advance acquires
  have third := second.snoc (SerialAction.interrupt lsr [(1, 98)]) taken
  exact third

end SerialHart

open SerialHart in
theorem empty_transmitter_goes_on :
    NoDeadlock (printing 0x20) ⟨⟨false, [98], 1, [98]⟩, true, [.write 97, .release], false⟩ := by
  apply (no_deadlock_iff idle_fresh (printing_run (by decide +kernel))).mpr
  intro p member blocks
  rcases blocks with ⟨lsr, polls, same, -, -, full, -⟩
  simp only [printing, List.mem_cons, List.not_mem_nil, or_false] at member
  rcases member with rfl | rfl | rfl
  · cases same
  · cases same
  · cases same
    exact full (by decide)

open SerialHart in
theorem full_transmitter_spins : ∃ t, Run Steps idle (printing 0) t ∧ t.spinning = true ∧
    ¬ NoDeadlock (printing 0) t := by
  refine ⟨{ acquired with spinning := true }, printing_run (by decide +kernel), rfl, ?_⟩
  intro safe
  cases safe.runs _ (Run.last_mem_visited _ _)

end Jangri
