import Jangri.Janglib.Syscall

namespace Jangri

namespace WordLayout

def wordBytes : (width value : Nat) → List UInt8
  | 0, _ => []
  | width + 1, value => UInt8.ofNat value :: wordBytes width (value / 256)

def wordOf : List UInt8 → Nat
  | [] => 0
  | byte :: bytes => byte.toNat + 256 * wordOf bytes

def wordsOf : (count : Nat) → List UInt8 → List Nat
  | 0, _ => []
  | count + 1, bytes => wordOf (bytes.take 8) :: wordsOf count (bytes.drop 8)

def errorWords : Error → List Nat
  | .pageAlreadyMapped va pt => [1, 0, va, pt]
  | .noSuchVirtualAddress va pt => [1, 1, va, pt]
  | .virtualAddressOverflow va => [1, 2, va, 0]
  | .virtualAddressMisaligned va => [1, 3, va, 0]
  | .sizeMisaligned size => [1, 4, size, 0]
  | .zeroSize => [1, 5, 0, 0]
  | .memoryNotAvailable => [1, 6, 0, 0]
  | .notASyscall => [1, 7, 0, 0]
  | .elfError => [1, 8, 0, 0]
  | .explicitPanic => [1, 9, 0, 0]
  | .beyondAllocationLimit => [1, 10, 0, 0]
  | .architectureError => [1, 11, 0, 0]

def wordsError : List Nat → Error
  | [_, 0, va, pt] => .pageAlreadyMapped va pt
  | [_, 1, va, pt] => .noSuchVirtualAddress va pt
  | [_, 2, va, _] => .virtualAddressOverflow va
  | [_, 3, va, _] => .virtualAddressMisaligned va
  | [_, 4, size, _] => .sizeMisaligned size
  | [_, 5, _, _] => .zeroSize
  | [_, 6, _, _] => .memoryNotAvailable
  | [_, 7, _, _] => .notASyscall
  | [_, 8, _, _] => .elfError
  | [_, 9, _, _] => .explicitPanic
  | [_, 10, _, _] => .beyondAllocationLimit
  | _ => .architectureError

def resultWords {α : Type} (words : α → List Nat) : Except Error α → List Nat
  | .ok a => 0 :: words a
  | .error e => errorWords e

def wordsResult {α : Type} (value : List Nat → α) : List Nat → Except Error α
  | 0 :: words => .ok (value words)
  | words => .error (wordsError words)

def numberWords (n : Nat) : List Nat := [n, 0, 0]

def wordsNumber (words : List Nat) : Nat := words.headD 0

def charWords : Option Char → List Nat
  | none => [0, 0, 0]
  | some c => [1, c.toNat, 0]

def wordsChar : List Nat → Option Char
  | [1, c, _] => some (Char.ofNat c)
  | _ => none

def pairWords (p : Nat × Nat) : List Nat := [p.1, p.2, 0]

def wordsPair : List Nat → Nat × Nat
  | [a, b, _] => (a, b)
  | _ => (0, 0)

def infoWords : SyscallInfo → List Nat
  | .syscall (.wantMemory size) => [0, 0, size, 0, 0, 0, 0]
  | .syscall (.write start len) => [0, 1, start, len, 0, 0, 0]
  | .syscall .readChar => [0, 2, 0, 0, 0, 0, 0]
  | .syscall (.exit status) => [0, 3] ++ resultWords numberWords status ++ [0]
  | .syscall (.spawn nameStart nameLen start len wait) =>
      [0, 4, nameStart, nameLen, start, len, wait.toNat]
  | .syscall .yield => [0, 5, 0, 0, 0, 0, 0]
  | .syscall .shutdown => [0, 6, 0, 0, 0, 0, 0]
  | .syscallResult (.wantMemory result) => [1, 0] ++ resultWords pairWords result ++ [0]
  | .syscallResult (.write result) => [1, 1] ++ resultWords numberWords result ++ [0]
  | .syscallResult (.readChar result) => [1, 2] ++ resultWords charWords result ++ [0]
  | .syscallResult .exit => [1, 3, 0, 0, 0, 0, 0]
  | .syscallResult (.spawn result) => [1, 4] ++ resultWords numberWords result ++ [0]
  | .syscallResult .yield => [1, 5, 0, 0, 0, 0, 0]
  | .syscallResult (.wait none) => [1, 6, 0, 0, 0, 0, 0]
  | .syscallResult (.wait (some result)) => [1, 7] ++ resultWords numberWords result ++ [0]
  | .empty => [2, 0, 0, 0, 0, 0, 0]

def wordsInfo : List Nat → SyscallInfo
  | [0, 0, size, _, _, _, _] => .syscall (.wantMemory size)
  | [0, 1, start, len, _, _, _] => .syscall (.write start len)
  | [0, 2, _, _, _, _, _] => .syscall .readChar
  | [0, 3, a, b, c, d, _] => .syscall (.exit (wordsResult wordsNumber [a, b, c, d]))
  | [0, 4, nameStart, nameLen, start, len, wait] =>
      .syscall (.spawn nameStart nameLen start len (wait != 0))
  | [0, 5, _, _, _, _, _] => .syscall .yield
  | [0, 6, _, _, _, _, _] => .syscall .shutdown
  | [1, 0, a, b, c, d, _] => .syscallResult (.wantMemory (wordsResult wordsPair [a, b, c, d]))
  | [1, 1, a, b, c, d, _] => .syscallResult (.write (wordsResult wordsNumber [a, b, c, d]))
  | [1, 2, a, b, c, d, _] => .syscallResult (.readChar (wordsResult wordsChar [a, b, c, d]))
  | [1, 3, _, _, _, _, _] => .syscallResult .exit
  | [1, 4, a, b, c, d, _] => .syscallResult (.spawn (wordsResult wordsNumber [a, b, c, d]))
  | [1, 5, _, _, _, _, _] => .syscallResult .yield
  | [1, 6, _, _, _, _, _] => .syscallResult (.wait none)
  | [1, 7, a, b, c, d, _] => .syscallResult (.wait (some (wordsResult wordsNumber [a, b, c, d])))
  | _ => .empty

theorem length_wordBytes (width value : Nat) : (wordBytes width value).length = width := by
  induction width generalizing value with
  | zero => rfl
  | succ width ih => rw [wordBytes, List.length_cons, ih]

theorem wordOf_wordBytes (width value : Nat) (small : value < 256 ^ width) :
    wordOf (wordBytes width value) = value := by
  induction width generalizing value with
  | zero =>
      have : value = 0 := by simpa using small
      rw [wordBytes, wordOf, this]
  | succ width ih =>
      have rest : value / 256 < 256 ^ width := by
        rw [Nat.div_lt_iff_lt_mul (by decide)]
        simpa [pow_succ] using small
      have low : (UInt8.ofNat value).toNat = value % 256 := by simp
      rw [wordBytes, wordOf, ih _ rest, low]
      omega

theorem wordsOf_wordBytes (words : List Nat) (small : ∀ w ∈ words, w < usizeBound) :
    wordsOf words.length (words.flatMap (wordBytes 8)) = words := by
  induction words with
  | nil => rfl
  | cons w words ih =>
      have length := length_wordBytes 8 w
      have bound : w < 256 ^ 8 := lt_of_lt_of_le (small w (by simp)) (by decide)
      have front : (wordBytes 8 w ++ words.flatMap (wordBytes 8)).take 8 = wordBytes 8 w := by
        rw [List.take_left' length]
      have back : (wordBytes 8 w ++ words.flatMap (wordBytes 8)).drop 8 =
          words.flatMap (wordBytes 8) := by
        rw [List.drop_left' length]
      rw [List.length_cons, List.flatMap_cons, wordsOf, front, back,
        ih fun v hv => small v (List.mem_cons_of_mem _ hv), wordOf_wordBytes 8 w bound]

theorem length_errorWords (e : Error) : (errorWords e).length = 4 := by
  cases e <;> rfl

theorem length_resultWords {α : Type} (words : α → List Nat) (long : ∀ a, (words a).length = 3)
    (result : Except Error α) : (resultWords words result).length = 4 := by
  cases result with
  | ok a => rw [resultWords, List.length_cons, long]
  | error e => exact length_errorWords e

theorem length_infoWords (info : SyscallInfo) : (infoWords info).length = 7 := by
  have numbers := length_resultWords numberWords fun _ => rfl
  have pairs := length_resultWords pairWords fun _ => rfl
  have chars := length_resultWords charWords fun c => by cases c <;> rfl
  rcases info with request | result | _
  · cases request <;> simp [infoWords, numbers]
  · rcases result with _ | _ | _ | _ | _ | _ | wait
    all_goals try cases wait
    all_goals simp [infoWords, numbers, pairs, chars]
  · rfl

theorem wordsResult_resultWords {α : Type} (words : α → List Nat) (value : List Nat → α)
    (back : ∀ a, value (words a) = a) (result : Except Error α) :
    wordsResult value (resultWords words result) = result := by
  cases result with
  | ok a => rw [resultWords, wordsResult, back]
  | error e => cases e <;> rfl

theorem wordsChar_charWords (c : Option Char) : wordsChar (charWords c) = c := by
  cases c with
  | none => rfl
  | some c => simp [charWords, wordsChar]

theorem wordsInfo_infoWords (info : SyscallInfo) : wordsInfo (infoWords info) = info := by
  have four : ∀ words : List Nat, words.length = 4 → ∃ a b c d, words = [a, b, c, d] := by
    intro words long
    match words, long with
    | [a, b, c, d], _ => exact ⟨a, b, c, d, rfl⟩
  have numbers : ∀ result, ∃ a b c d, resultWords numberWords result = [a, b, c, d] :=
    fun result => four _ (length_resultWords _ (fun _ => rfl) result)
  have pairs : ∀ result, ∃ a b c d, resultWords pairWords result = [a, b, c, d] :=
    fun result => four _ (length_resultWords _ (fun _ => rfl) result)
  have chars : ∀ result, ∃ a b c d, resultWords charWords result = [a, b, c, d] :=
    fun result => four _ (length_resultWords _ (fun c => by cases c <;> rfl) result)
  have number := wordsResult_resultWords numberWords wordsNumber fun _ => rfl
  have pair := wordsResult_resultWords pairWords wordsPair fun _ => rfl
  have char := wordsResult_resultWords charWords wordsChar wordsChar_charWords
  rcases info with request | result | _
  · cases request with
    | exit status =>
        obtain ⟨a, b, c, d, same⟩ := numbers status
        have back := number status
        rw [same] at back
        rw [infoWords, same]
        exact congrArg (fun r => SyscallInfo.syscall (.exit r)) back
    | spawn nameStart nameLen start len wait => cases wait <;> rfl
    | wantMemory size => rfl
    | write start len => rfl
    | readChar => rfl
    | yield => rfl
    | shutdown => rfl
  · cases result with
    | wantMemory result =>
        obtain ⟨a, b, c, d, same⟩ := pairs result
        have back := pair result
        rw [same] at back
        rw [infoWords, same]
        exact congrArg (fun r => SyscallInfo.syscallResult (.wantMemory r)) back
    | write result =>
        obtain ⟨a, b, c, d, same⟩ := numbers result
        have back := number result
        rw [same] at back
        rw [infoWords, same]
        exact congrArg (fun r => SyscallInfo.syscallResult (.write r)) back
    | readChar result =>
        obtain ⟨a, b, c, d, same⟩ := chars result
        have back := char result
        rw [same] at back
        rw [infoWords, same]
        exact congrArg (fun r => SyscallInfo.syscallResult (.readChar r)) back
    | spawn result =>
        obtain ⟨a, b, c, d, same⟩ := numbers result
        have back := number result
        rw [same] at back
        rw [infoWords, same]
        exact congrArg (fun r => SyscallInfo.syscallResult (.spawn r)) back
    | wait result =>
        cases result with
        | none => rfl
        | some result =>
            obtain ⟨a, b, c, d, same⟩ := numbers result
            have back := number result
            rw [same] at back
            rw [infoWords, same]
            exact congrArg (fun r => SyscallInfo.syscallResult (.wait (some r))) back
    | exit => rfl
    | yield => rfl
  · rfl

theorem resultWords_lt {α : Type} (fits : α → Prop) (words : α → List Nat)
    (small : ∀ a, fits a → ∀ w ∈ words a, w < usizeBound) (result : Except Error α)
    (bounded : resultFits fits result) : ∀ w ∈ resultWords words result, w < usizeBound := by
  have digit : ∀ n < 16, n < usizeBound := fun n low => lt_trans low (by decide)
  cases result with
  | ok a =>
      intro w member
      rcases List.mem_cons.mp member with rfl | member
      · exact digit 0 (by decide)
      · exact small a bounded w member
  | error e =>
      intro w member
      cases e
      all_goals
        simp only [resultWords, errorWords, List.mem_cons, List.not_mem_nil, or_false] at member
        rcases member with rfl | rfl | rfl | rfl
      all_goals first
        | exact digit _ (by decide)
        | exact bounded
        | exact bounded.1
        | exact bounded.2

theorem infoWords_lt (info : SyscallInfo) (fits : info.Fits) :
    ∀ w ∈ infoWords info, w < usizeBound := by
  have digit : ∀ n < 16, n < usizeBound := fun n low => lt_trans low (by decide)
  have tagged : ∀ (a b : Nat) (words : List Nat), a < 16 → b < 16 → (∀ w ∈ words, w < usizeBound) →
      ∀ w ∈ [a, b] ++ words ++ [0], w < usizeBound := by
    intro a b words lowA lowB small w member
    simp only [List.mem_append, List.mem_cons, List.not_mem_nil, or_false] at member
    rcases member with ((rfl | rfl) | inside) | rfl
    · exact digit _ lowA
    · exact digit _ lowB
    · exact small w inside
    · exact digit 0 (by decide)
  have number := resultWords_lt (· < usizeBound) numberWords fun n bounded w member => by
    simp only [numberWords, List.mem_cons, List.not_mem_nil, or_false] at member
    rcases member with rfl | rfl | rfl
    · exact bounded
    all_goals exact digit 0 (by decide)
  have pair := resultWords_lt (fun p : Nat × Nat => p.1 < usizeBound ∧ p.2 < usizeBound) pairWords
    fun p bounded w member => by
      simp only [pairWords, List.mem_cons, List.not_mem_nil, or_false] at member
      rcases member with rfl | rfl | rfl
      · exact bounded.1
      · exact bounded.2
      · exact digit 0 (by decide)
  have char := resultWords_lt (fun _ : Option Char => True) charWords fun c _ w member => by
    cases c with
    | none =>
        simp only [charWords, List.mem_cons, List.not_mem_nil, or_false] at member
        rcases member with rfl | rfl | rfl <;> exact digit 0 (by decide)
    | some c =>
        simp only [charWords, List.mem_cons, List.not_mem_nil, or_false] at member
        rcases member with rfl | rfl | rfl
        · exact digit 1 (by decide)
        · exact lt_trans c.val.toNat_lt (by decide)
        · exact digit 0 (by decide)
  rcases info with request | result | _
  · cases request with
    | exit status => exact tagged 0 3 _ (by decide) (by decide) (number status fits)
    | wantMemory size =>
        exact tagged 0 0 [size, 0, 0, 0] (by decide) (by decide) (by
          simp only [List.forall_mem_cons]
          exact ⟨fits, digit 0 (by decide), digit 0 (by decide), digit 0 (by decide), by simp⟩)
    | write start len =>
        exact tagged 0 1 [start, len, 0, 0] (by decide) (by decide) (by
          simp only [List.forall_mem_cons]
          exact ⟨fits.1, fits.2, digit 0 (by decide), digit 0 (by decide), by simp⟩)
    | spawn nameStart nameLen start len wait =>
        obtain ⟨first, second, third, fourth⟩ := fits
        simp only [infoWords, List.forall_mem_cons]
        refine ⟨digit 0 (by decide), digit 4 (by decide), first, second, third, fourth, ?_, by simp⟩
        cases wait
        · exact digit 0 (by decide)
        · exact digit 1 (by decide)
    | readChar => decide
    | yield => decide
    | shutdown => decide
  · cases result with
    | wantMemory result => exact tagged 1 0 _ (by decide) (by decide) (pair result fits)
    | write result => exact tagged 1 1 _ (by decide) (by decide) (number result fits)
    | readChar result => exact tagged 1 2 _ (by decide) (by decide) (char result fits)
    | spawn result => exact tagged 1 4 _ (by decide) (by decide) (number result fits)
    | wait result =>
        cases result with
        | none => decide
        | some result => exact tagged 1 7 _ (by decide) (by decide) (number result fits)
    | exit => decide
    | yield => decide
  · decide

end WordLayout

open WordLayout in
def wordLayout : Layout where
  size := 56
  encode := fun info => (infoWords info).flatMap (wordBytes 8)
  decode := fun bytes => wordsInfo (wordsOf 7 bytes)
  length_encode := by
    intro info
    have sum : ∀ words : List Nat, (words.flatMap (wordBytes 8)).length = 8 * words.length := by
      intro words
      induction words with
      | nil => rfl
      | cons w words ih =>
          rw [List.flatMap_cons, List.length_append, ih, length_wordBytes, List.length_cons]
          ring
    rw [sum, length_infoWords]
  decode_encode := by
    intro info fits
    have words := wordsOf_wordBytes (infoWords info) (infoWords_lt info fits)
    rw [length_infoWords] at words
    rw [words, wordsInfo_infoWords]
  fits := by decide

end Jangri
