import Mathlib.Algebra.Group.Nat.Defs
import Mathlib.Data.List.Basic

/-!
# Text as bytes, decimal numbers as text

The UTF-8 bytes of a string as a list, and the decimal digits of a number
as bytes. Decoding gives exactly the strings back
(`decode_eq_some_iff`), and the digits of a number read as that number
(`value_decimal`), are digits only, and are as short as digits for it can
be (`length_decimal_le`).
-/

namespace TextBytes

/-! ## UTF-8 -/

theorem toList_loop (b : ByteArray) (i : Nat) (acc : List UInt8) :
    ByteArray.toList.loop b i acc = acc.reverse ++ b.data.toList.drop i := by
  rw [ByteArray.toList.loop]
  split
  · rename_i hi
    have hlen : i < b.data.toList.length := by simpa using hi
    rw [toList_loop b (i + 1), List.drop_eq_getElem_cons hlen, List.reverse_cons,
      List.append_assoc, List.singleton_append]
    have hget : b.get! i = b.data.toList[i] := by
      have hdata : i < b.data.size := by simpa using hi
      show b.data[i]! = _
      rw [getElem!_pos b.data i hdata, Array.getElem_toList]
    rw [hget]
  · rename_i hi
    have hlen : b.data.toList.length ≤ i := by simpa using hi
    rw [List.drop_eq_nil_of_le hlen, List.append_nil]
termination_by b.size - i

theorem toList_eq (b : ByteArray) : b.toList = b.data.toList := by
  rw [ByteArray.toList, toList_loop]
  rfl

/-- The bytes of a string. -/
def utf8 (s : String) : List UInt8 := s.toUTF8.toList

theorem utf8_eq (s : String) : utf8 s = s.toByteArray.data.toList := toList_eq _

theorem utf8_append (s t : String) : utf8 (s ++ t) = utf8 s ++ utf8 t := by
  rw [utf8_eq, utf8_eq, utf8_eq, String.toByteArray_append, ByteArray.toList_data_append]

theorem decode_eq_some_iff {b : List UInt8} {s : String} :
    String.fromUTF8? ⟨b.toArray⟩ = some s ↔ utf8 s = b := by
  rw [utf8_eq, String.fromUTF8?]
  constructor
  · intro h
    split at h
    · cases h
      rfl
    · cases h
  · intro h
    have harray : s.toByteArray = ⟨b.toArray⟩ := by
      rw [← h]
    have hvalid : ByteArray.IsValidUTF8 ⟨b.toArray⟩ := by
      rw [← harray]
      exact s.isValidUTF8
    rw [dif_pos hvalid, Option.some.injEq, ← String.toByteArray_inj, harray]
    rfl

theorem utf8_singleton_ascii : ∀ n < 128,
    utf8 (String.singleton (Char.ofNat n)) = [UInt8.ofNat n] := by
  decide +kernel

/-- ASCII bytes are text. -/
theorem exists_utf8_of_ascii {b : List UInt8} (h : ∀ c ∈ b, c < 128) : ∃ s, utf8 s = b := by
  induction b with
  | nil => exact ⟨"", utf8_eq ""⟩
  | cons c b ih =>
      obtain ⟨s, hs⟩ := ih fun d hd => h d (List.mem_cons_of_mem _ hd)
      have hc : c.toNat < 128 := UInt8.lt_iff_toNat_lt.mp (h c List.mem_cons_self)
      refine ⟨String.singleton (Char.ofNat c.toNat) ++ s, ?_⟩
      rw [utf8_append, hs, utf8_singleton_ascii _ hc, UInt8.ofNat_toNat]
      rfl

theorem lt_of_mem_utf8EncodeChar {c : Char} {b : UInt8} (h : b ∈ String.utf8EncodeChar c) :
    b < 255 := by
  rw [UInt8.lt_iff_toNat_lt, show (255 : UInt8).toNat = 255 from rfl]
  unfold String.utf8EncodeChar at h
  dsimp only at h
  split_ifs at h <;> simp only [List.mem_cons, List.not_mem_nil, or_false] at h
  · rw [h, UInt8.toNat_ofNat']
    omega
  · rcases h with rfl | rfl <;> rw [UInt8.toNat_ofNat'] <;> omega
  · rcases h with rfl | rfl | rfl <;> rw [UInt8.toNat_ofNat'] <;> omega
  · rcases h with rfl | rfl | rfl | rfl <;> rw [UInt8.toNat_ofNat'] <;> omega

/-- The byte `0xff` occurs in no text. -/
theorem lt_of_mem_utf8 {s : String} {b : UInt8} (h : b ∈ utf8 s) : b < 255 := by
  rw [utf8_eq, ← String.ofList_toList (s := s), String.toByteArray_ofList] at h
  generalize s.toList = cs at h
  induction cs with
  | nil => cases h
  | cons c cs ih =>
      rw [List.utf8Encode_cons, ByteArray.toList_data_append, List.mem_append] at h
      rcases h with h | h
      · apply lt_of_mem_utf8EncodeChar (c := c)
        simpa [List.utf8Encode_singleton] using h
      · exact ih h

/-! ## Decimal digits -/

def IsDigit (c : UInt8) : Prop := 48 ≤ c ∧ c ≤ 57

instance (c : UInt8) : Decidable (IsDigit c) := inferInstanceAs (Decidable (_ ∧ _))

def digitValue (c : UInt8) : Nat := c.toNat - 48

/-- The number a digit string denotes, `acc` standing for the digits read
before it. -/
def valueFrom (acc : Nat) (ds : List UInt8) : Nat :=
  ds.foldl (fun acc c => acc * 10 + digitValue c) acc

def value (ds : List UInt8) : Nat := valueFrom 0 ds

@[simp] theorem valueFrom_nil (acc : Nat) : valueFrom acc [] = acc := rfl

@[simp] theorem valueFrom_cons (acc : Nat) (c : UInt8) (ds : List UInt8) :
    valueFrom acc (c :: ds) = valueFrom (acc * 10 + digitValue c) ds := by
  rw [valueFrom, List.foldl_cons, valueFrom]

theorem valueFrom_append (acc : Nat) (ds es : List UInt8) :
    valueFrom acc (ds ++ es) = valueFrom (valueFrom acc ds) es :=
  List.foldl_append

theorem le_valueFrom (acc : Nat) (ds : List UInt8) : acc ≤ valueFrom acc ds := by
  induction ds generalizing acc with
  | nil => exact Nat.le_refl acc
  | cons c ds ih =>
      rw [valueFrom_cons]
      have hrest := ih (acc * 10 + digitValue c)
      omega

theorem digitValue_lt {c : UInt8} (h : IsDigit c) : digitValue c < 10 := by
  have hle : c.toNat ≤ 57 := UInt8.le_iff_toNat_le.mp h.2
  rw [digitValue]
  omega

/-- A string of `k` digits denotes a number below `10 ^ k`. -/
theorem valueFrom_lt {ds : List UInt8} (h : ∀ c ∈ ds, IsDigit c) (acc : Nat) :
    valueFrom acc ds < (acc + 1) * 10 ^ ds.length := by
  induction ds generalizing acc with
  | nil => simp
  | cons c ds ih =>
      have hc := digitValue_lt (h c List.mem_cons_self)
      have hrest := ih (fun d hd => h d (List.mem_cons_of_mem _ hd)) (acc * 10 + digitValue c)
      have hstep : acc * 10 + digitValue c + 1 ≤ (acc + 1) * 10 := by omega
      calc valueFrom acc (c :: ds)
          < (acc * 10 + digitValue c + 1) * 10 ^ ds.length := hrest
        _ ≤ (acc + 1) * 10 * 10 ^ ds.length := Nat.mul_le_mul_right _ hstep
        _ = (acc + 1) * 10 ^ (c :: ds).length := by
            rw [List.length_cons, Nat.pow_succ, Nat.mul_assoc, Nat.mul_comm 10]

/-- The decimal digits of a number. -/
def decimal (n : Nat) : List UInt8 := utf8 (toString n)

theorem decimal_of_lt {n : Nat} (h : n < 10) : decimal n = [UInt8.ofNat (48 + n)] := by
  revert n
  decide +kernel

theorem decimal_of_ge {n : Nat} (h : 10 ≤ n) :
    decimal n = decimal (n / 10) ++ [UInt8.ofNat (48 + n % 10)] := by
  rw [← decimal_of_lt (Nat.mod_lt n (by omega)), decimal, decimal, decimal, ← utf8_append]
  exact congrArg utf8 (Nat.repr_eq_repr_append_repr h)

theorem digitValue_ofNat {d : Nat} (h : d < 10) : digitValue (UInt8.ofNat (48 + d)) = d := by
  revert d
  decide

theorem isDigit_ofNat {d : Nat} (h : d < 10) : IsDigit (UInt8.ofNat (48 + d)) := by
  revert d
  decide

theorem value_decimal (n : Nat) : value (decimal n) = n := by
  induction n using Nat.strongRecOn with
  | ind n ih =>
      by_cases h : n < 10
      · rw [decimal_of_lt h, value, valueFrom_cons, valueFrom_nil, digitValue_ofNat h]
        omega
      · have hdiv := ih (n / 10) (by omega)
        rw [value] at hdiv ⊢
        rw [decimal_of_ge (by omega), valueFrom_append, hdiv, valueFrom_cons, valueFrom_nil,
          digitValue_ofNat (Nat.mod_lt n (by omega))]
        omega

theorem isDigit_of_mem_decimal {n : Nat} {c : UInt8} (hc : c ∈ decimal n) : IsDigit c := by
  induction n using Nat.strongRecOn with
  | ind n ih =>
      by_cases h : n < 10
      · rw [decimal_of_lt h, List.mem_singleton] at hc
        rw [hc]
        exact isDigit_ofNat h
      · rw [decimal_of_ge (by omega), List.mem_append, List.mem_singleton] at hc
        rcases hc with hc | hc
        · exact ih (n / 10) (by omega) hc
        · rw [hc]
          exact isDigit_ofNat (Nat.mod_lt n (by omega))

theorem decimal_ne_nil (n : Nat) : decimal n ≠ [] := by
  by_cases h : n < 10
  · rw [decimal_of_lt h]
    exact List.cons_ne_nil _ _
  · rw [decimal_of_ge (by omega)]
    simp

theorem length_decimal_le_of_lt {n k : Nat} (hk : 0 < k) (h : n < 10 ^ k) :
    (decimal n).length ≤ k := by
  induction k generalizing n with
  | zero => cases hk
  | succ k ih =>
      by_cases hsmall : n < 10
      · rw [decimal_of_lt hsmall]
        exact Nat.succ_le_succ (Nat.zero_le k)
      · have hdiv : n / 10 < 10 ^ k := by
          rw [Nat.pow_succ] at h
          omega
        have hpos : 0 < k := by
          rcases Nat.eq_zero_or_pos k with rfl | hpos
          · rw [Nat.pow_zero] at hdiv
            omega
          · exact hpos
        rw [decimal_of_ge (by omega), List.length_append]
        exact Nat.succ_le_succ (ih hpos hdiv)

/-- No digit string for a number is shorter than its decimal digits. -/
theorem length_decimal_le {ds : List UInt8} (hne : ds ≠ []) (h : ∀ c ∈ ds, IsDigit c) :
    (decimal (value ds)).length ≤ ds.length := by
  apply length_decimal_le_of_lt (List.length_pos_of_ne_nil hne)
  have hlt := valueFrom_lt h 0
  rw [Nat.zero_add, Nat.one_mul] at hlt
  exact hlt

end TextBytes
