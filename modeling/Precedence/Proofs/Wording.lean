import Mathlib.Data.List.Nodup
import Precedence.Diagnostic

/-!
# What a message tells

Quoted text can be read back character by character, and each cause is worded in a way of its own.
So a message tells what was diagnosed.
-/

namespace Precedence

namespace Text

/-! ## Quoted text is read back -/

def hexDigitValue (c : Char) : Nat :=
  if c.isDigit then c.toNat - '0'.toNat else 10 + (c.toNat - 'a'.toNat)

def hexValue (cs : List Char) : Nat := cs.foldl (fun n c => 16 * n + hexDigitValue c) 0

/-- What a character stands for behind a backslash. -/
def behindBackslash? : Char → Option Char
  | '0' => some '\x00'
  | 't' => some '\t'
  | 'n' => some '\n'
  | 'r' => some '\r'
  | '"' => some '"'
  | '\\' => some '\\'
  | _ => none

/-- The character that a quoted text starts with, and how the text goes on behind it. -/
def unescape? : List Char → Option (Char × List Char)
  | '\\' :: 'u' :: '\x7b' :: cs =>
    some (.ofNat (hexValue (cs.takeWhile (· ≠ '\x7d'))), (cs.dropWhile (· ≠ '\x7d')).drop 1)
  | '\\' :: c :: cs => (behindBackslash? c).map fun d => (d, cs)
  | c :: cs => some (c, cs)
  | [] => none

theorem hexDigitValue_digitChar : ∀ d < 16, hexDigitValue (Nat.digitChar d) = d := by decide

theorem digitChar_ne_brace : ∀ d < 16, Nat.digitChar d ≠ '\x7d' := by decide

theorem hexValue_toDigits (n : Nat) : hexValue (Nat.toDigits 16 n) = n := by
  induction n using Nat.strongRecOn with
  | ind n ih =>
    by_cases hn : n < 16
    · rw [Nat.toDigits_of_lt_base hn]
      show 16 * 0 + hexDigitValue (Nat.digitChar n) = n
      rw [hexDigitValue_digitChar n hn]
      omega
    · have hlast := hexDigitValue_digitChar (n % 16) (by omega)
      rw [Nat.toDigits_of_base_le (by decide) (by omega), hexValue, List.foldl_append]
      show 16 * hexValue (Nat.toDigits 16 (n / 16)) + hexDigitValue (Nat.digitChar (n % 16)) = n
      rw [ih (n / 16) (by omega), hlast]
      omega

theorem ne_brace_of_mem_toDigits {n : Nat} {c : Char} (h : c ∈ Nat.toDigits 16 n) :
    c ≠ '\x7d' := by
  induction n using Nat.strongRecOn with
  | ind n ih =>
    by_cases hn : n < 16
    · rw [Nat.toDigits_of_lt_base hn, List.mem_singleton] at h
      rw [h]
      exact digitChar_ne_brace n hn
    · rw [Nat.toDigits_of_base_le (by decide) (by omega), List.mem_append, List.mem_singleton] at h
      cases h with
      | inl h => exact ih (n / 16) (by omega) h
      | inr h =>
        rw [h]
        exact digitChar_ne_brace (n % 16) (by omega)

/-- The number of an unseen character ends where its digits do. -/
theorem unescape?_number (c : Char) (cs : List Char) :
    unescape? (['\\', 'u', '\x7b'] ++ Nat.toDigits 16 c.toNat ++ ['\x7d'] ++ cs) =
      some (c, cs) := by
  have hdigits : ∀ d ∈ Nat.toDigits 16 c.toNat, decide (d ≠ '\x7d') = true := fun d hd =>
    decide_eq_true (ne_brace_of_mem_toDigits hd)
  rw [List.append_assoc, List.append_assoc]
  show some (Char.ofNat (hexValue ((Nat.toDigits 16 c.toNat ++ '\x7d' :: cs).takeWhile _)),
    ((Nat.toDigits 16 c.toNat ++ '\x7d' :: cs).dropWhile _).drop 1) = _
  rw [List.takeWhile_append_of_pos hdigits, List.dropWhile_append_of_pos hdigits,
    List.takeWhile_cons_of_neg (by decide), List.dropWhile_cons_of_neg (by decide),
    List.append_nil, hexValue_toDigits, Char.ofNat_toNat]
  rfl

theorem unescape?_cons {c : Char} (h : c ≠ '\\') (cs : List Char) :
    unescape? (c :: cs) = some (c, cs) := by
  unfold unescape?
  split
  next he => exact absurd (List.cons.inj he).1 h
  next he => exact absurd (List.cons.inj he).1 h
  next he => cases he; rfl
  next he => cases he

/-- However a character is written, it is read back, whatever follows. -/
theorem unescape?_escaped (c : Char) (cs : List Char) :
    unescape? (escaped c ++ cs) = some (c, cs) := by
  unfold escaped
  split
  · rfl
  · rfl
  · rfl
  · rfl
  · rfl
  · rfl
  next hbackslash =>
    split
    · exact unescape?_number c cs
    · exact unescape?_cons hbackslash cs

theorem escaped_injective {c d : Char} {cs ds : List Char}
    (h : escaped c ++ cs = escaped d ++ ds) : c = d ∧ cs = ds := by
  have hread := unescape?_escaped c cs
  rw [h, unescape?_escaped] at hread
  cases hread
  exact ⟨rfl, rfl⟩

theorem escaped_ne_nil (c : Char) : escaped c ≠ [] := by
  intro h
  have hread := unescape?_escaped c []
  rw [h] at hread
  cases hread

theorem flatMap_escaped_injective : Function.Injective (List.flatMap escaped) := by
  intro cs ds h
  induction cs generalizing ds with
  | nil =>
    cases ds with
    | nil => rfl
    | cons d ds =>
      rw [List.flatMap_cons] at h
      exact absurd (List.append_eq_nil_iff.1 h.symm).1 (escaped_ne_nil d)
  | cons c cs ih =>
    cases ds with
    | nil =>
      rw [List.flatMap_cons] at h
      exact absurd (List.append_eq_nil_iff.1 h).1 (escaped_ne_nil c)
    | cons d ds =>
      rw [List.flatMap_cons, List.flatMap_cons] at h
      obtain ⟨hhead, htail⟩ := escaped_injective h
      rw [hhead, ih htail]

theorem quote_injective : Function.Injective quote := by
  intro s t h
  have hchars := String.ofList_injective h
  have hinside := List.append_cancel_right (List.cons.inj hchars).2
  exact String.toList_injective (flatMap_escaped_injective hinside)

end Text

/-! ## Names of kinds -/

namespace Kind

theorem name_injective : Function.Injective name := by
  intro k l h
  have hnodup : (all.map name).Nodup := by simp [all, name]
  exact List.inj_on_of_nodup_map hnodup (mem_all k) (mem_all l) h

theorem comma_notMem_name (k : Kind) : ',' ∉ k.name.toList := by
  cases k <;> simp [name]

end Kind

/-! ## Messages -/

namespace Diagnostic

open Text

/-- The letters that tell at once which cause a message is about. -/
def opening : Diagnostic → String
  | .unrecognised _ => "unre"
  | .unexpected _ _ => "expe"
  | .noOperand _ => "no p"
  | .badInteger _ => "coul"
  | .tooDeep _ => "expr"

theorem take_message (d : Diagnostic) : d.message.toList.take 4 = d.opening.toList := by
  cases d with
  | unrecognised text =>
    show ("unrecognised character: " ++ quote text).toList.take 4 = "unre".toList
    simp
  | unexpected expected found =>
    show ("expected next token to be " ++ expected.name ++ ", got " ++ found.name ++
      " instead").toList.take 4 = "expe".toList
    simp
  | noOperand kind =>
    show ("no prefix parse function for " ++ kind.name ++ " found").toList.take 4 = "no p".toList
    simp
  | badInteger text =>
    show ("could not parse " ++ quote text ++ " as integer").toList.take 4 = "coul".toList
    simp
  | tooDeep limit =>
    show ("expression nested deeper than " ++ toString limit ++ " levels").toList.take 4 =
      "expr".toList
    simp

theorem opening_eq {d e : Diagnostic} (h : d.message = e.message) : d.opening = e.opening := by
  apply String.toList_injective
  rw [← take_message, ← take_message, h]

/-- The name of the kind expected ends at the first comma. -/
theorem kinds_eq_of_message {k k' l l' : Kind}
    (h : (unexpected k l).message = (unexpected k' l').message) : k = k' ∧ l = l' := by
  have hcommas (j : Kind) : ',' ∉ " got ".toList ++ (j.name.toList ++ " instead".toList) := by
    have hname := j.comma_notMem_name
    simp [hname]
  change "expected next token to be " ++ k.name ++ ", got " ++ l.name ++ " instead" =
    "expected next token to be " ++ k'.name ++ ", got " ++ l'.name ++ " instead" at h
  have hchars := congrArg String.toList h
  simp only [String.toList_append, List.append_assoc] at hchars
  -- No name has a comma in it, so both messages have their one comma in the same place.
  have hnames : k.name.toList ++ ',' :: (" got ".toList ++ (l.name.toList ++ " instead".toList)) =
      k'.name.toList ++ ',' :: (" got ".toList ++ (l'.name.toList ++ " instead".toList)) :=
    List.append_cancel_left hchars
  obtain ⟨hexpected, -, hrest⟩ :=
    (List.append_cons_inj_of_notMem k.comma_notMem_name (hcommas l)).1 hnames
  have hfound := List.append_cancel_right (List.append_cancel_left hrest)
  exact ⟨Kind.name_injective (String.toList_injective hexpected),
    Kind.name_injective (String.toList_injective hfound)⟩

theorem limit_eq_of_message {m n : Nat} (h : (tooDeep m).message = (tooDeep n).message) : m = n := by
  have htexts : toString m = toString n :=
    (String.append_right_inj _).1 ((String.append_left_inj _).1 h)
  rw [Nat.toString_eq_ofList_toDigits, Nat.toString_eq_ofList_toDigits] at htexts
  have hdigits : Nat.toDigits 10 m = Nat.toDigits 10 n := String.ofList_injective htexts
  calc
    m = Nat.ofDigitChars 10 (Nat.toDigits 10 m) 0 := Nat.ofDigitChars_ten_toDigits.symm
    _ = Nat.ofDigitChars 10 (Nat.toDigits 10 n) 0 := by rw [hdigits]
    _ = n := Nat.ofDigitChars_ten_toDigits

theorem message_injective : Function.Injective message := by
  intro d e h
  have hopening := opening_eq h
  -- Within one cause, what stands around the text, the kind or the number is fixed.
  cases d <;> cases e
  case unrecognised.unrecognised s t =>
    rw [quote_injective ((String.append_right_inj _).1 h)]
  case unexpected.unexpected k l k' l' =>
    obtain ⟨rfl, rfl⟩ := kinds_eq_of_message h
    rfl
  case noOperand.noOperand k l =>
    rw [Kind.name_injective ((String.append_right_inj _).1 ((String.append_left_inj _).1 h))]
  case badInteger.badInteger s t =>
    rw [quote_injective ((String.append_right_inj _).1 ((String.append_left_inj _).1 h))]
  case tooDeep.tooDeep m n =>
    rw [limit_eq_of_message h]
  all_goals exact absurd hopening (by simp [opening])

/-- Two diagnostics that are worded alike are the same, and so are their names and tips. -/
theorem message_eq_iff {d e : Diagnostic} :
    d.message = e.message ↔ d = e ∧ d.name = e.name ∧ d.tip? = e.tip? := by
  constructor
  · intro h
    rw [message_injective h]
    exact ⟨rfl, rfl, rfl⟩
  · intro h
    rw [h.1]

end Diagnostic

end Precedence
