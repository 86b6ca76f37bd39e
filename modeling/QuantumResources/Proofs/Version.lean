import Mathlib.Algebra.Ring.Nat
import Mathlib.Data.List.TakeDrop
import Mathlib.Data.List.TakeWhile
import QuantumResources.Proofs.Sequence
import QuantumResources.Version

/-! Versions that are read back from their texts.

The text of a version is its numbers and its pre-release with points between them. The reader takes
digits as long as there are any, so a pre-release that begins with a digit is taken for the patch
number if there is none; and it stops at the end of the line. These, and an empty pre-release, are
the only versions that are not read back. -/

namespace QuantumResources.Version

/-- The numbers of a version do not have too many digits. -/
structure Short (version : Version) : Prop where
  major : version.major < 10 ^ digitLimit
  minor : version.minor < 10 ^ digitLimit
  patch : ∀ n ∈ version.patch, n < 10 ^ digitLimit

/-! ## Digits -/

theorem isDigit_toDigits {n : Nat} {c : Char} (member : c ∈ Nat.toDigits 10 n) :
    Numeral.isDigit c = true :=
  Nat.isDigit_of_mem_toDigits (by decide) (by decide) member

theorem length_toDigits {n : Nat} (small : n < 10 ^ digitLimit) :
    (Nat.toDigits 10 n).length ≤ digitLimit :=
  (Nat.length_toDigits_le_iff (by decide) (by decide)).mpr small

theorem digitText_eq {n : Nat} (small : n < 10 ^ digitLimit) :
    digitText n = .ok (String.ofList (Nat.toDigits 10 n)) := by
  have short : ¬ digitLimit < (Digits.ofNat n).length := by
    rw [Digits.ofNat, String.length_ofList]
    exact Nat.not_lt.mpr (length_toDigits small)
  exact if_neg short

theorem number_toDigits {n : Nat} (small : n < 10 ^ digitLimit) :
    number (Nat.toDigits 10 n) = .ok n := by
  have value : (Nat.toDigits 10 n).foldl (fun value c => 10 * value + Numeral.digitValue c) 0 = n :=
    Nat.ofDigitChars_toDigits (by decide) (by decide)
  rw [number, if_neg (Nat.not_lt.mpr (length_toDigits small)), value]

/-- A text that does not go on with a digit. -/
def Ends (text : List Char) : Prop := text.head?.any Numeral.isDigit = false

theorem digits_append {found rest : List Char} (all : ∀ c ∈ found, Numeral.isDigit c = true)
    (ends : Ends rest) : digits (found ++ rest) = (found, rest) := by
  have none : rest.takeWhile Numeral.isDigit = [] ∧ rest.dropWhile Numeral.isDigit = rest := by
    cases rest with
    | nil => exact ⟨rfl, rfl⟩
    | cons c rest =>
      have other : Numeral.isDigit c = false := ends
      simp [other]
  rw [digits, List.span_eq_takeWhile_dropWhile, List.takeWhile_append_of_pos all,
    List.dropWhile_append_of_pos all, none.1, none.2, List.append_nil]

theorem pointed?_digits {found rest : List Char} (nonempty : found ≠ [])
    (all : ∀ c ∈ found, Numeral.isDigit c = true) (ends : Ends rest) :
    pointed? ('.' :: (found ++ rest)) = some (found, rest) := by
  cases found with
  | nil => exact absurd rfl nonempty
  | cons c more => simp only [pointed?, digits_append all ends]

theorem pointed?_eq_none_iff (rest : List Char) : pointed? ('.' :: rest) = none ↔ Ends rest := by
  cases rest with
  | nil => exact ⟨fun _ => rfl, fun _ => rfl⟩
  | cons c more =>
    simp only [pointed?, digits, List.span_eq_takeWhile_dropWhile, Ends, List.head?_cons,
      Option.any_some]
    cases digit : Numeral.isDigit c <;> simp [digit]

/-! ## Pre-releases -/

/-- How a pre-release is written; an empty one is left out. -/
def release : Option String → List Char
  | none => []
  | some name => if name.isEmpty then [] else '.' :: name.toList

theorem ends_release (pre : Option String) : Ends (release pre) := by
  cases pre with
  | none => rfl
  | some name =>
    rw [release]
    split <;> rfl

theorem pre?_point_iff (name : String) :
    pre? ('.' :: name.toList) = some name ↔ name ≠ "" ∧ '\n' ∉ name.toList := by
  have whole : name.toList.takeWhile (· ≠ '\n') = name.toList ↔ '\n' ∉ name.toList := by
    rw [List.takeWhile_eq_self_iff]
    simp only [ne_eq, decide_not, Bool.not_eq_true', decide_eq_false_iff_not]
    constructor
    · intro other member
      exact other _ member rfl
    · rintro absent c member rfl
      exact absent member
  simp only [pre?]
  split
  · next empty =>
    refine ⟨nofun, fun ⟨nonempty, oneLine⟩ => absurd ?_ nonempty⟩
    rw [← String.toList_eq_nil_iff, ← whole.mpr oneLine, empty]
  · next nonempty =>
    rw [Option.some.injEq, ← whole, ← String.toList_inj, String.toList_ofList]
    refine ⟨fun same => ⟨?_, same⟩, And.right⟩
    rintro rfl
    exact nonempty rfl

theorem pre?_release_iff (pre : Option String) :
    pre? (release pre) = pre ↔ ∀ name ∈ pre, name ≠ "" ∧ '\n' ∉ name.toList := by
  cases pre with
  | none => simp [release, pre?]
  | some name =>
    simp only [Option.mem_some_iff, forall_eq', release, String.isEmpty_iff]
    split
    · next empty => simp [pre?, empty]
    · exact pre?_point_iff name

theorem pointed?_release_eq_none_iff (pre : Option String) :
    pointed? (release pre) = none ↔ ∀ name ∈ pre, Ends name.toList := by
  cases pre with
  | none => simp [release, pointed?]
  | some name =>
    simp only [Option.mem_some_iff, forall_eq', release, String.isEmpty_iff]
    split
    · next empty => simp [pointed?, empty, Ends]
    · exact pointed?_eq_none_iff name.toList

/-! ## Texts -/

/-- The characters of a version. -/
def chars (version : Version) : List Char :=
  Nat.toDigits 10 version.major ++ '.' :: (Nat.toDigits 10 version.minor ++
    ((version.patch.elim [] fun n => '.' :: Nat.toDigits 10 n) ++ release version.pre))

theorem ofList_point (rest : List Char) :
    String.ofList ('.' :: rest) = "." ++ String.ofList rest :=
  @String.ofList_append ['.'] rest

theorem ofList_release (pre : Option String) :
    String.ofList (release pre) =
      pre.elim "" fun name => if name.isEmpty then "" else "." ++ name := by
  cases pre with
  | none => rfl
  | some name =>
    rw [release, Option.elim_some]
    split
    · rfl
    · rw [ofList_point, String.ofList_toList]

theorem text_eq {version : Version} (short : version.Short) :
    version.text = .ok (String.ofList version.chars) := by
  obtain ⟨major, minor, patch, pre⟩ := version
  have isMajor := digitText_eq short.major
  have isMinor := digitText_eq short.minor
  cases patch with
  | none =>
    simp only [chars, String.ofList_append, ofList_point, ofList_release, text, isMajor, isMinor]
    cases pre <;> simp [String.append_assoc, pure, Except.pure]
  | some n =>
    have isPatch := digitText_eq (short.patch n rfl)
    simp only [chars, String.ofList_append, ofList_point, ofList_release, text, isMajor, isMinor,
      isPatch]
    cases pre <;> simp [String.append_assoc, pure, Except.pure]

/-! ## Reading -/

section Reading

variable {major minor : Nat} {rest : List Char} (ends : Ends rest)

include ends

theorem spelling?_eq :
    spelling? (Nat.toDigits 10 major ++ '.' :: (Nat.toDigits 10 minor ++ rest)) = some
      ((pointed? rest).elim ⟨Nat.toDigits 10 major, Nat.toDigits 10 minor, none, pre? rest⟩
        fun found =>
          ⟨Nat.toDigits 10 major, Nat.toDigits 10 minor, some found.1, pre? found.2⟩) := by
  have first : digits (Nat.toDigits 10 major ++ '.' :: (Nat.toDigits 10 minor ++ rest)) = _ :=
    digits_append (fun _ => isDigit_toDigits) rfl
  have second : pointed? ('.' :: (Nat.toDigits 10 minor ++ rest)) = _ :=
    pointed?_digits Nat.toDigits_ne_nil (fun _ => isDigit_toDigits) ends
  simp only [spelling?, first, second]
  cases found : pointed? rest <;> simp [Nat.toDigits_ne_nil, found]

/-- Behind two numbers a patch number is read if there is one, and then a pre-release. -/
theorem parse_eq (isMajor : major < 10 ^ digitLimit) (isMinor : minor < 10 ^ digitLimit) :
    parse (String.ofList (Nat.toDigits 10 major ++ '.' :: (Nat.toDigits 10 minor ++ rest))) =
      (pointed? rest).elim (.ok ⟨major, minor, none, pre? rest⟩) fun found =>
        (number found.1).map fun patch => ⟨major, minor, some patch, pre? found.2⟩ := by
  simp only [parse, String.toList_ofList, spelling?_eq ends]
  cases pointed? rest with
  | none => simp [number_toDigits isMajor, number_toDigits isMinor, pure, Except.pure]
  | some found =>
    simp only [Option.elim_some, Option.mapM_some, number_toDigits isMajor, number_toDigits isMinor]
    cases number found.1 <;> rfl

end Reading

/-- A version whose numbers do not have too many digits can be written. It is read back from its
text if and only if it has no pre-release or one that is not empty, has no end of line in it and
does not begin with a digit where a patch number is missing. -/
theorem parse_text_iff (version : Version) (short : version.Short) :
    ∃ written, version.text = .ok written ∧
      (parse written = .ok version ↔ ∀ name ∈ version.pre, name ≠ "" ∧ '\n' ∉ name.toList ∧
        (version.patch.isSome ∨ name.toList.head?.any Numeral.isDigit = false)) := by
  refine ⟨_, text_eq short, ?_⟩
  obtain ⟨major, minor, patch, pre⟩ := version
  cases patch with
  | some n =>
    have patched : pointed? ('.' :: (Nat.toDigits 10 n ++ release pre)) = _ :=
      pointed?_digits Nat.toDigits_ne_nil (fun _ => isDigit_toDigits) (ends_release pre)
    have ends : Ends ('.' :: (Nat.toDigits 10 n ++ release pre)) := rfl
    have isRead := parse_eq ends short.major short.minor
    rw [patched, Option.elim_some, number_toDigits (short.patch n rfl)] at isRead
    rw [chars, Option.elim_some, List.cons_append, isRead]
    simp [Except.map, pre?_release_iff]
  | none =>
    have isRead := parse_eq (ends_release pre) short.major short.minor
    rw [chars, Option.elim_none, List.nil_append, isRead]
    cases found : pointed? (release pre) with
    | none =>
      have letters := (pointed?_release_eq_none_iff pre).mp found
      simp only [Option.elim_none, Except.ok.injEq, Version.mk.injEq, true_and, pre?_release_iff]
      refine forall₂_congr fun name member => and_congr_right fun _ => ?_
      exact (and_iff_left (.inr (letters name member))).symm
    | some patch =>
      -- The digits of the pre-release have become a patch number.
      constructor
      · intro impossible
        rw [Option.elim_some] at impossible
        cases isNumber : number patch.1 <;> simp [isNumber, Except.map] at impossible
      · intro hypothesis
        have none : pointed? (release pre) = none :=
          (pointed?_release_eq_none_iff pre).mpr fun name member =>
            (hypothesis name member).2.2.resolve_left Bool.false_ne_true
        rw [none] at found
        cases found

/-- A pre-release that begins with a digit is read back behind a patch number, not without one. -/
theorem parse_text_iff_digit :
    (∃ written, text ⟨1, 20, some 3, some "4-rc"⟩ = .ok written ∧
      parse written = .ok ⟨1, 20, some 3, some "4-rc"⟩) ∧
    ∃ written, text ⟨1, 20, none, some "4-rc"⟩ = .ok written ∧
      parse written ≠ .ok ⟨1, 20, none, some "4-rc"⟩ := by
  have small (n : Nat) (below : n < 10 ^ 2) : n < 10 ^ digitLimit :=
    below.trans_le (Nat.pow_le_pow_right (by decide) (by decide))
  obtain ⟨written, isWritten, read⟩ := parse_text_iff ⟨1, 20, some 3, some "4-rc"⟩
    ⟨small 1 (by decide), small 20 (by decide), by simpa using small 3 (by decide)⟩
  obtain ⟨other, isOther, alsoRead⟩ := parse_text_iff ⟨1, 20, none, some "4-rc"⟩
    ⟨small 1 (by decide), small 20 (by decide), by simp⟩
  refine ⟨⟨written, isWritten, read.mpr (by simp)⟩, other, isOther, fun same => ?_⟩
  have impossible := alsoRead.mp same "4-rc" rfl
  simp [Numeral.isDigit] at impossible

end QuantumResources.Version
