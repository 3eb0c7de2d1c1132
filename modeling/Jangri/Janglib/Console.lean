import Jangri.Kernel.Quiet
import Jangri.Lib.Run
import Mathlib.Algebra.BigOperators.Group.List.Basic

namespace Jangri

open Lib

namespace LineInput

def latin1 (byte : UInt8) : Char := Char.ofNat byte.toNat

def isNewline (byte : UInt8) : Bool := byte = 10 ∨ byte = 13

def isBackspace (byte : UInt8) : Bool := byte = 0x7f ∨ byte = 0x08

structure Editor where
  line : List Char
  lines : List (List Char)
  deriving DecidableEq

namespace Editor

def type (editor : Editor) (byte : UInt8) : Editor :=
  if isNewline byte then ⟨[], editor.lines ++ [editor.line]⟩
  else if isBackspace byte then { editor with line := editor.line.dropLast }
  else { editor with line := editor.line ++ [latin1 byte] }

def typed (bytes : List UInt8) : Editor := bytes.foldl type ⟨[], []⟩

end Editor

def answerReadChar : Kernel SyscallResult := do
  let char ← dequeueInput
  pure (.readChar (.ok char))

def checkReadChar : SyscallResult → Rust (Option Char)
  | .readChar (.ok char) => pure char
  | .readChar (.error _) => panic .unwrapErr
  | _ => panic (.message "explicit panic")

def readChar : Kernel (Option Char) := do
  let result ← answerReadChar
  liftRust (checkReadChar result)

structure Reader where
  text : List Char
  returned : List (List Char)
  deriving DecidableEq

namespace Reader

def take (reader : Reader) : Option Char → Rust Reader
  | none => pure reader
  | some char =>
      if char = '\n' then pure ⟨[], reader.returned ++ [reader.text]⟩
      else if char = Char.ofNat 0x08 then do
        let _ ← unwrap reader.text.getLast?
        pure { reader with text := reader.text.dropLast }
      else pure { reader with text := reader.text ++ [char] }

def takeAll (reader : Reader) (bytes : List UInt8) : Rust Reader :=
  bytes.foldlM (fun reader byte => reader.take (some (latin1 byte))) reader

end Reader

structure Console where
  kernel : GlobalState
  reader : Option Reader
  delivered : List UInt8

inductive Action
  | interrupt (received : List UInt8)
  | readChar

namespace Console

/-- An interrupt, while fewer than `capacity` bytes are pending, or a `ReadChar` and what `read`
does with the answer. -/
def step (c : Console) : Action → Option Console
  | .interrupt received =>
      match Uart.handleInterrupt received c.kernel with
      | .ok ((), kernel) =>
          if kernel.inputBuffer.length < Uart.capacity then
            some { c with kernel, delivered := c.delivered ++ received }
          else none
      | .error _ => none
  | .readChar =>
      match c.reader, LineInput.readChar c.kernel with
      | some reader, .ok (char, kernel) =>
          some { c with kernel, reader := (reader.take char).toOption }
      | _, _ => none

def Steps (c : Console) (action : Action) (c' : Console) : Prop := c.step action = some c'

structure Fresh (c : Console) : Prop where
  inputBuffer : c.kernel.inputBuffer = []
  cursorPosition : c.kernel.cursorPosition = 0
  held : c.kernel.held = []
  reader : c.reader = some ⟨[], []⟩
  delivered : c.delivered = []

/-- `read` has not panicked and has returned lines of the editor from the first on, and once it has
taken what is pending it will have returned all of them and be left with the line in progress. -/
def Faithful (c : Console) : Prop :=
  ∃ reader, c.reader = some reader ∧
    reader.returned <+: (Editor.typed c.delivered).lines ∧
    reader.takeAll c.kernel.inputBuffer =
      .ok ⟨(Editor.typed c.delivered).line, (Editor.typed c.delivered).lines⟩

end Console

/-- No backspace comes while the line in progress is empty and an earlier line is not. -/
def Harmless (bytes : List UInt8) : Prop :=
  ∀ before byte after, bytes = before ++ byte :: after → isBackspace byte = true →
    (Editor.typed before).line = [] → ∀ line ∈ (Editor.typed before).lines, line = []

theorem typed_concat (bytes : List UInt8) (byte : UInt8) :
    Editor.typed (bytes ++ [byte]) = (Editor.typed bytes).type byte := by
  simp [Editor.typed]

theorem harmless_nil : Harmless [] := by
  intro before byte after split
  simp at split

theorem harmless_concat (bytes : List UInt8) (byte : UInt8) :
    Harmless (bytes ++ [byte]) ↔ Harmless bytes ∧ (isBackspace byte = true →
      (Editor.typed bytes).line = [] → ∀ line ∈ (Editor.typed bytes).lines, line = []) := by
  constructor
  · intro harmless
    constructor
    · intro before other after split
      exact harmless before other (after ++ [byte]) (by simp [split])
    · exact harmless bytes byte [] rfl
  · rintro ⟨harmless, last⟩ before other after split
    rcases List.eq_nil_or_concat after with rfl | ⟨front, final, rfl⟩
    · rcases List.append_inj' split rfl with ⟨rfl, same⟩
      cases same
      exact last
    · rw [List.concat_eq_append, ← List.cons_append, ← List.append_assoc] at split
      rcases List.append_inj' split rfl with ⟨whole, _⟩
      exact harmless before other front whole

namespace Reader

variable {reader reader' : Reader}

theorem take_returned {char : Option Char} (taken : reader.take char = .ok reader') :
    reader.returned <+: reader'.returned := by
  cases char with
  | none =>
      cases taken
      exact List.prefix_rfl
  | some char =>
      simp only [take] at taken
      split at taken
      · cases taken
        exact List.prefix_append _ _
      · split at taken
        · rcases (bind_eq_ok _ _ _).mp taken with ⟨_, _, rest⟩
          cases rest
          exact List.prefix_rfl
        · cases taken
          exact List.prefix_rfl

theorem takeAll_returned (bytes : List UInt8) (taken : reader.takeAll bytes = .ok reader') :
    reader.returned <+: reader'.returned := by
  induction bytes generalizing reader with
  | nil =>
      cases taken
      exact List.prefix_rfl
  | cons byte rest ih =>
      rw [takeAll, List.foldlM_cons] at taken
      rcases (bind_eq_ok _ _ _).mp taken with ⟨next, first, later⟩
      exact (take_returned first).trans (ih later)

theorem takeAll_concat (bytes : List UInt8) (byte : UInt8) :
    reader.takeAll (bytes ++ [byte]) =
      reader.takeAll bytes >>= fun next => next.take (some (latin1 byte)) := by
  rw [takeAll, List.foldlM_append]
  simp only [List.foldlM_cons, List.foldlM_nil, bind_pure]
  rfl

theorem latin1_eq_iff (byte other : UInt8) : latin1 byte = latin1 other ↔ byte = other := by
  constructor
  · intro same
    have valid : ∀ b : UInt8, (latin1 b).toNat = b.toNat := by
      intro b
      have valid : b.toNat.isValidChar := by
        left
        have small := b.toNat_lt
        omega
      rw [latin1, Char.ofNat, dif_pos valid]
      rfl
    apply UInt8.toNat_inj.mp
    rw [← valid byte, ← valid other, same]
  · intro same
    rw [same]

theorem take_backspace : reader.take (some (latin1 8)) =
    if reader.text = [] then panic .unwrapNone
    else .ok { reader with text := reader.text.dropLast } := by
  have notNewline : latin1 8 ≠ '\n' := by decide
  have isDelete : latin1 8 = Char.ofNat 0x08 := rfl
  rw [take, if_neg notNewline, if_pos isDelete]
  cases empty : reader.text with
  | nil => rfl
  | cons char rest =>
      rw [if_neg (List.cons_ne_nil char rest), List.getLast?_cons]
      rfl

theorem take_other (byte : UInt8) (notNewline : isNewline byte = false)
    (notBackspace : isBackspace byte = false) : reader.take (some (latin1 byte)) =
      .ok { reader with text := reader.text ++ [latin1 byte] } := by
  simp only [isNewline, isBackspace, decide_eq_false_iff_not, not_or] at notNewline notBackspace
  have first : latin1 byte ≠ '\n' := fun same => notNewline.1 ((latin1_eq_iff byte 10).mp same)
  have second : latin1 byte ≠ Char.ofNat 0x08 := fun same =>
    notBackspace.2 ((latin1_eq_iff byte 8).mp same)
  rw [take, if_neg first, if_neg second]
  rfl

end Reader

section Bytes

variable {s t : GlobalState}

/-- The three cases of `receive` while the buffer has room. -/
theorem receive_newline {byte : UInt8} (newline : isNewline byte = true)
    (room : s.inputBuffer.length < Uart.capacity) (received : Uart.receive s byte = .ok t) :
    t.inputBuffer = s.inputBuffer ++ [10] ∧ t.cursorPosition = s.cursorPosition := by
  simp only [isNewline, decide_eq_true_eq] at newline
  rw [Uart.receive, if_pos newline] at received
  cases received
  exact ⟨if_pos room, rfl⟩

theorem receive_backspace {byte : UInt8} (newline : isNewline byte = false)
    (backspace : isBackspace byte = true) (room : s.inputBuffer.length < Uart.capacity)
    (received : Uart.receive s byte = .ok t) :
    (0 < s.cursorPosition ∧ t.inputBuffer = s.inputBuffer ++ [8] ∧
      t.cursorPosition = s.cursorPosition - 1) ∨
    (s.cursorPosition = 0 ∧ t = s) := by
  simp only [isNewline, decide_eq_false_iff_not] at newline
  simp only [isBackspace, decide_eq_true_eq] at backspace
  rw [Uart.receive, if_neg newline, if_pos backspace] at received
  split at received
  next behind =>
    rcases (bind_eq_ok _ _ _).mp received with ⟨cursor, moved, rest⟩
    cases rest
    exact .inl ⟨behind, if_pos room, ((usizeSub_eq_ok _ _ _).mp moved).2⟩
  next first =>
    cases received
    exact .inr ⟨by omega, rfl⟩

theorem receive_other {byte : UInt8} (newline : isNewline byte = false)
    (backspace : isBackspace byte = false) (room : s.inputBuffer.length < Uart.capacity)
    (received : Uart.receive s byte = .ok t) :
    t.inputBuffer = s.inputBuffer ++ [byte] ∧ t.cursorPosition = s.cursorPosition + 1 := by
  simp only [isNewline, decide_eq_false_iff_not] at newline
  simp only [isBackspace, decide_eq_false_iff_not] at backspace
  rw [Uart.receive, if_neg newline, if_neg backspace] at received
  rcases (bind_eq_ok _ _ _).mp received with ⟨cursor, moved, rest⟩
  cases rest
  exact ⟨if_pos room, ((usizeAdd_eq_ok _ _ _).mp moved).2⟩

theorem length_enqueue (buffer : List UInt8) (byte : UInt8) :
    buffer.length ≤ (Uart.enqueue buffer byte).length := by
  unfold Uart.enqueue
  split
  · simp
  · simp only [List.length_append, List.length_tail, List.length_singleton]
    omega

theorem length_receive {byte : UInt8} (received : Uart.receive s byte = .ok t) :
    s.inputBuffer.length ≤ t.inputBuffer.length := by
  unfold Uart.receive at received
  split at received
  · cases received
    exact length_enqueue _ _
  · split at received
    · split at received
      · rcases (bind_eq_ok _ _ _).mp received with ⟨_, _, rest⟩
        cases rest
        exact length_enqueue _ _
      · cases received
        exact le_refl _
    · rcases (bind_eq_ok _ _ _).mp received with ⟨_, _, rest⟩
      cases rest
      exact length_enqueue _ _

theorem length_received (received : List UInt8) (done : received.foldlM Uart.receive s = .ok t) :
    s.inputBuffer.length ≤ t.inputBuffer.length := by
  induction received generalizing s with
  | nil =>
      cases done
      exact le_refl _
  | cons byte rest ih =>
      rw [List.foldlM_cons] at done
      rcases (bind_eq_ok _ _ _).mp done with ⟨u, first, later⟩
      exact (length_receive first).trans (ih later)

end Bytes

/-- How many characters the editor's lines have. The kernel's cursor counts them all. -/
def Editor.characters (editor : Editor) : Nat :=
  editor.line.length + (editor.lines.map List.length).sum

theorem characters_eq_zero (editor : Editor) :
    editor.characters = 0 ↔ editor.line = [] ∧ ∀ line ∈ editor.lines, line = [] := by
  unfold Editor.characters
  rw [Nat.add_eq_zero_iff, List.length_eq_zero_iff, List.sum_eq_zero_iff]
  simp

def outcome (reader : Option Reader) (pending : List UInt8) : Option Reader :=
  reader.bind fun reader => (reader.takeAll pending).toOption

def Tracks (reader : Option Reader) (pending : List UInt8) (cursor : Nat)
    (delivered : List UInt8) : Prop :=
  let editor := Editor.typed delivered
  (Harmless delivered ∧ outcome reader pending = some ⟨editor.line, editor.lines⟩ ∧
    cursor = editor.characters) ∨
  (¬ Harmless delivered ∧ outcome reader pending = none)

theorem outcome_concat (reader : Option Reader) (pending : List UInt8) (byte : UInt8) :
    outcome reader (pending ++ [byte]) =
      (outcome reader pending).bind fun next => (next.take (some (latin1 byte))).toOption := by
  cases reader with
  | none => rfl
  | some reader =>
      change (reader.takeAll (pending ++ [byte])).toOption = _
      rw [Reader.takeAll_concat]
      change _ = Option.bind (reader.takeAll pending).toOption _
      cases reader.takeAll pending with
      | error e => rfl
      | ok next => rfl

theorem tracks_receive {reader : Option Reader} {s t : GlobalState} {delivered : List UInt8}
    (byte : UInt8) (tracks : Tracks reader s.inputBuffer s.cursorPosition delivered)
    (room : s.inputBuffer.length < Uart.capacity) (received : Uart.receive s byte = .ok t) :
    Tracks reader t.inputBuffer t.cursorPosition (delivered ++ [byte]) := by
  rcases tracks with ⟨harmless, pending, cursor⟩ | ⟨harmful, lost⟩
  · unfold Tracks
    rw [harmless_concat, typed_concat]
    have zero := characters_eq_zero (Editor.typed delivered)
    cases newline : isNewline byte with
    | true =>
        have notBackspace : isBackspace byte = false := by
          simp only [isNewline, decide_eq_true_eq] at newline
          rcases newline with rfl | rfl
          · rfl
          · rfl
        rcases receive_newline newline room received with ⟨buffer, moved⟩
        left
        refine ⟨⟨harmless, ?_⟩, ?_, ?_⟩
        · rw [notBackspace]
          intro impossible
          cases impossible
        · rw [buffer, outcome_concat, pending, Editor.type, if_pos newline]
          rfl
        · rw [moved, cursor, Editor.type, if_pos newline]
          simp [Editor.characters, Nat.add_comm]
    | false =>
        have notNewline : ¬ isNewline byte = true := by simp [newline]
        cases backspace : isBackspace byte with
        | true =>
            have editor : (Editor.typed delivered).type byte =
                { Editor.typed delivered with line := (Editor.typed delivered).line.dropLast } := by
              rw [Editor.type, if_neg notNewline, if_pos backspace]
            rw [editor]
            rcases receive_backspace newline backspace room received with
              ⟨behind, buffer, moved⟩ | ⟨first, same⟩
            · rw [buffer, outcome_concat, pending]
              by_cases empty : (Editor.typed delivered).line = []
              · right
                constructor
                · intro all
                  have none := zero.mpr ⟨empty, all.2 rfl empty⟩
                  omega
                · rw [Option.bind_some, Reader.take_backspace, if_pos empty]
                  rfl
              · left
                refine ⟨⟨harmless, fun _ isEmpty => absurd isEmpty empty⟩, ?_, ?_⟩
                · rw [Option.bind_some, Reader.take_backspace, if_neg empty]
                  rfl
                · have some := List.length_pos_iff.mpr empty
                  rw [moved, cursor]
                  simp only [Editor.characters, List.length_dropLast]
                  omega
            · rw [same]
              have nothing := zero.mp (cursor.symm.trans first)
              have unchanged : { Editor.typed delivered with
                  line := (Editor.typed delivered).line.dropLast } = Editor.typed delivered := by
                rw [nothing.1, List.dropLast_nil, ← nothing.1]
              rw [unchanged]
              exact .inl ⟨⟨harmless, fun _ _ => nothing.2⟩, pending, cursor⟩
        | false =>
            rcases receive_other newline backspace room received with ⟨buffer, moved⟩
            have editor : (Editor.typed delivered).type byte =
                { Editor.typed delivered with
                  line := (Editor.typed delivered).line ++ [latin1 byte] } := by
              rw [Editor.type, if_neg notNewline, if_neg (by simp [backspace])]
            left
            refine ⟨⟨harmless, ?_⟩, ?_, ?_⟩
            · intro impossible
              cases impossible
            · rw [buffer, outcome_concat, pending, Option.bind_some,
                Reader.take_other byte newline backspace, editor]
              rfl
            · rw [moved, cursor, editor]
              simp only [Editor.characters, List.length_append, List.length_singleton]
              omega
  · right
    constructor
    · intro harmless
      exact harmful ((harmless_concat delivered byte).mp harmless).1
    · -- whatever follows a lost reader is lost
      have grows : t.inputBuffer = s.inputBuffer ∨ ∃ last, t.inputBuffer = s.inputBuffer ++ [last] := by
        cases newline : isNewline byte with
        | true => exact .inr ⟨10, (receive_newline newline room received).1⟩
        | false =>
            cases backspace : isBackspace byte with
            | true =>
                rcases receive_backspace newline backspace room received with
                  ⟨_, buffer, _⟩ | ⟨_, same⟩
                · exact .inr ⟨8, buffer⟩
                · exact .inl (by rw [same])
            | false => exact .inr ⟨byte, (receive_other newline backspace room received).1⟩
      rcases grows with same | ⟨last, buffer⟩
      · rw [same, lost]
      · rw [buffer, outcome_concat, lost]
        rfl

theorem tracks_received {reader : Option Reader} {s t : GlobalState} (received : List UInt8)
    {delivered : List UInt8} (tracks : Tracks reader s.inputBuffer s.cursorPosition delivered)
    (room : t.inputBuffer.length < Uart.capacity) (done : received.foldlM Uart.receive s = .ok t) :
    Tracks reader t.inputBuffer t.cursorPosition (delivered ++ received) := by
  induction received generalizing s delivered with
  | nil =>
      cases done
      rw [List.append_nil]
      exact tracks
  | cons byte rest ih =>
      rw [List.foldlM_cons] at done
      rcases (bind_eq_ok _ _ _).mp done with ⟨u, first, later⟩
      have room' : s.inputBuffer.length < Uart.capacity :=
        lt_of_le_of_lt ((length_receive first).trans (length_received rest later)) room
      have next := ih (tracks_receive byte tracks room' first) later
      rw [List.append_assoc] at next
      exact next

/-- A `ReadChar` moves a byte from the buffer to the reader, which changes nothing in the end. -/
theorem outcome_take (reader : Reader) (byte : UInt8) (rest : List UInt8) :
    outcome (reader.take (some (latin1 byte))).toOption rest = outcome (some reader) (byte :: rest) := by
  change _ = (reader.takeAll (byte :: rest)).toOption
  rw [Reader.takeAll, List.foldlM_cons]
  cases reader.take (some (latin1 byte)) with
  | error e => rfl
  | ok next => rfl

namespace Console

structure Inv (c : Console) : Prop where
  held : c.kernel.held = []
  tracks : Tracks c.reader c.kernel.inputBuffer c.kernel.cursorPosition c.delivered

variable {c c' : Console}

theorem inv_fresh (fresh : c.Fresh) : c.Inv where
  held := fresh.held
  tracks := by
    rw [fresh.inputBuffer, fresh.cursorPosition, fresh.reader, fresh.delivered]
    exact .inl ⟨harmless_nil, rfl, rfl⟩

theorem handleInterrupt_returns {received : List UInt8} {s t : GlobalState} (held : s.held = [])
    (done : Uart.handleInterrupt received s = .ok ((), t)) :
    ∃ u, received.foldlM Uart.receive { s with held := [.inputBuffer] } = .ok u ∧
      t = { u with held := [] } := by
  have available : Lock.inputBuffer ∉ s.held := by simp [held]
  have spec : wp (Uart.handleInterrupt received) (fun _ t =>
      ∃ u, received.foldlM Uart.receive { s with held := [.inputBuffer] } = .ok u ∧
        t = { u with held := [] }) (fun _ => True) s := by
    rw [Uart.handleInterrupt, wp_withLock _ _ _ available, held, wp_def]
    cases bytes : received.foldlM Uart.receive { s with held := [.inputBuffer] } with
    | error e => trivial
    | ok u =>
        rcases received_frame received bytes with ⟨_, _, _, rfl⟩
        exact ⟨_, rfl, rfl⟩
  have result := wp_of_returns spec done
  exact result

theorem readChar_returns {s t : GlobalState} {char : Option Char} (held : s.held = [])
    (done : LineInput.readChar s = .ok (char, t)) :
    t.held = [] ∧ t.cursorPosition = s.cursorPosition ∧
      ((char = none ∧ s.inputBuffer = [] ∧ t.inputBuffer = []) ∨
        ∃ byte, char = some (latin1 byte) ∧ s.inputBuffer = byte :: t.inputBuffer) := by
  have available : Lock.inputBuffer ∉ s.held := by simp [held]
  have spec : wp LineInput.readChar (fun char t => t.held = [] ∧ t.cursorPosition = s.cursorPosition ∧
      ((char = none ∧ s.inputBuffer = [] ∧ t.inputBuffer = []) ∨
        ∃ byte, char = some (latin1 byte) ∧ s.inputBuffer = byte :: t.inputBuffer))
      (fun _ => True) s := by
    rw [LineInput.readChar, wp_bind, answerReadChar, wp_bind, dequeueInput,
      wp_withLock _ _ _ available, held, wp_def]
    cases buffer : s.inputBuffer with
    | nil =>
        simp only [wp_pure, checkReadChar, List.erase_cons_head]
        rw [wp_def]
        exact ⟨rfl, rfl, .inl ⟨rfl, trivial, rfl⟩⟩
    | cons byte rest =>
        simp only [wp_pure, checkReadChar, List.erase_cons_head]
        rw [wp_def]
        exact ⟨rfl, rfl, .inr ⟨byte, rfl, rfl⟩⟩
  have result := wp_of_returns spec done
  exact result

theorem inv_step (inv : c.Inv) (action : Action) (taken : c.Steps action c') : c'.Inv := by
  cases action with
  | interrupt received =>
      simp only [Steps, step] at taken
      split at taken
      next kernel done =>
        split at taken
        next room =>
          cases taken
          rcases handleInterrupt_returns inv.held done with ⟨u, bytes, rfl⟩
          have tracks := tracks_received (s := { c.kernel with held := [.inputBuffer] }) (t := u)
            received inv.tracks room bytes
          exact ⟨rfl, tracks⟩
        next => cases taken
      next => cases taken
  | readChar =>
      simp only [Steps, step] at taken
      split at taken
      next reader char kernel known done =>
        cases taken
        rcases readChar_returns inv.held done with
          ⟨held, cursor, ⟨rfl, before, after⟩ | ⟨byte, rfl, buffer⟩⟩
        · refine ⟨held, ?_⟩
          have tracks := inv.tracks
          rw [before, known] at tracks
          rw [after, cursor]
          exact tracks
        · refine ⟨held, ?_⟩
          have tracks := inv.tracks
          rw [buffer, known] at tracks
          unfold Tracks at tracks ⊢
          rw [outcome_take, cursor]
          exact tracks
      next => cases taken

theorem faithful_iff (inv : c.Inv) : c.Faithful ↔ Harmless c.delivered := by
  rcases inv.tracks with ⟨harmless, pending, _⟩ | ⟨harmful, lost⟩
  · refine ⟨fun _ => harmless, fun _ => ?_⟩
    rcases Option.bind_eq_some_iff.mp pending with ⟨reader, known, taken⟩
    cases all : reader.takeAll c.kernel.inputBuffer with
    | error e =>
        rw [all] at taken
        cases taken
    | ok final =>
        rw [all] at taken
        cases taken
        exact ⟨reader, known, Reader.takeAll_returned _ all, all⟩
  · refine ⟨?_, fun harmless => absurd harmless harmful⟩
    rintro ⟨reader, known, _, all⟩
    rw [known] at lost
    change (reader.takeAll c.kernel.inputBuffer).toOption = none at lost
    rw [all] at lost
    cases lost

end Console

section Results

variable (c c' : Console) (trace : List (Console × Action))

/-- The lines that `read` returns are those of the line editor, whatever the order of interrupts
and `ReadChar` calls, exactly as long as every backspace received is harmless. -/
theorem console_faithful_iff (fresh : c.Fresh) (run : Run Console.Steps c trace c') :
    ∀ u ∈ Run.visited trace c', u.Faithful ↔ Harmless u.delivered := by
  intro u visited
  have inv := run.invariant Console.Inv (Console.inv_fresh fresh)
    (fun t action w kept taken => Console.inv_step kept action taken) u visited
  exact Console.faithful_iff inv

end Results

def quiet : Console where
  kernel :=
    { memory := fun _ => 0
      nodeId := 0
      allocator := ⟨Bitmap.new, 0, 0, 0, 0, fun _ => ⟨none⟩⟩
      object := Process.default
      processes := []
      numReaders := 0
      pids := []
      currentProcess := none
      pid := 0
      held := []
      inputBuffer := []
      cursorPosition := 0
      console := [] }
  reader := some ⟨[], []⟩
  delivered := []

theorem quiet_fresh : quiet.Fresh := ⟨rfl, rfl, rfl, rfl, rfl⟩

def editing : List Action :=
  [.interrupt [97, 13], .readChar, .interrupt [99, 127], .readChar, .readChar, .readChar,
   .interrupt [10, 98, 10], .readChar, .readChar, .readChar, .readChar, .readChar]

def overtyping : List Action := [.interrupt [97, 13], .readChar, .readChar, .interrupt [127], .readChar]

theorem lines_read_back : ∃ u trace, Run Console.Steps quiet trace u ∧
    u.reader = some ⟨[], [['a'], [], ['b']]⟩ ∧ Harmless u.delivered := by
  have ends : (Run.follow Console.step quiet editing).map (fun u =>
      (u.reader, u.kernel.inputBuffer, u.delivered)) =
        some (some ⟨[], [['a'], [], ['b']]⟩, [], [97, 13, 99, 127, 10, 98, 10]) := by
    decide +kernel
  rcases Option.map_eq_some_iff.mp ends with ⟨u, followed, last⟩
  rcases Run.of_follow (fun _ _ _ taken => taken) editing followed with ⟨trace, run, _⟩
  simp only [Prod.mk.injEq] at last
  have edited : Editor.typed u.delivered = ⟨[], [['a'], [], ['b']]⟩ := by
    rw [last.2.2]
    decide +kernel
  have faithful : u.Faithful := by
    refine ⟨_, last.1, ?_, ?_⟩
    · rw [edited]
    · rw [edited, last.2.1]
      rfl
  exact ⟨u, trace, run, last.1,
    (console_faithful_iff quiet u trace quiet_fresh run u (Run.last_mem_visited trace u)).mp faithful⟩

theorem backspace_panics : quiet.Fresh ∧ ∃ u trace, Run Console.Steps quiet trace u ∧
    u.delivered = [97, 13, 127] ∧ Editor.typed u.delivered = ⟨[], [['a']]⟩ ∧ u.reader = none := by
  refine ⟨quiet_fresh, ?_⟩
  have ends : (Run.follow Console.step quiet overtyping).map (fun u => (u.reader, u.delivered)) =
      some (none, [97, 13, 127]) := by
    decide +kernel
  rcases Option.map_eq_some_iff.mp ends with ⟨u, followed, last⟩
  rcases Run.of_follow (fun _ _ _ taken => taken) overtyping followed with ⟨trace, run, _⟩
  simp only [Prod.mk.injEq] at last
  refine ⟨u, trace, run, last.2, ?_, last.1⟩
  rw [last.2]
  decide +kernel

end LineInput

end Jangri
