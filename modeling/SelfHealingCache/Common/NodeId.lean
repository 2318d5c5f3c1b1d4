import Mathlib.Algebra.Group.Nat.Defs
import Mathlib.Data.List.Basic
import Mathlib.Data.Option.Basic

/-!
# Node identity

`NodeId` is a UUID, `NodeInfo` an id with the address it is reached at
(`crates/common/src/lib.rs`).

Two functions the cache calls live in third-party crates and are
PARAMETERS here, collected in `Crates`: the text form of a UUID (every
id crosses the wire as a string) and the xxh3 hash the ring places keys
with. The only thing the code relies on is `parse_display`: an id comes
back from its own text. `Crates.hyphenated` is the text form the `uuid`
crate documents, so the parameter is inhabited.
-/

namespace SelfHealingCache

/-- `NodeId(Uuid)`. -/
structure NodeId where
  uuid : BitVec 128
  deriving DecidableEq

/-- A node id with the address the node is reached at. -/
structure NodeInfo where
  id : NodeId
  addr : String
  deriving DecidableEq

/-- What the model takes from third-party crates. -/
structure Crates where
  /-- `Display` of a UUID. -/
  display : NodeId → String
  /-- `Uuid::parse_str`. -/
  parse : String → Option NodeId
  /-- `xxhash_rust::xxh3::xxh3_64`. -/
  xxh3_64 : ByteArray → UInt64
  parse_display : ∀ id, parse (display id) = some id

/-! ## The hyphenated text form -/

/-- The `w` low hexadecimal digits of `n`, most significant first. -/
def hexDigits : Nat → Nat → List Char
  | 0, _ => []
  | w + 1, n => hexDigits w (n / 16) ++ [Nat.digitChar (n % 16)]

/-- One hexadecimal digit, either case. -/
def hexValue? (c : Char) : Option Nat :=
  if '0' ≤ c ∧ c ≤ '9' then some (c.toNat - '0'.toNat)
  else if 'a' ≤ c ∧ c ≤ 'f' then some (c.toNat - 'a'.toNat + 10)
  else if 'A' ≤ c ∧ c ≤ 'F' then some (c.toNat - 'A'.toNat + 10)
  else none

def hexNumber? (cs : List Char) : Option Nat :=
  cs.foldlM (fun acc c => (hexValue? c).map (acc * 16 + ·)) 0

theorem hexDigits_length (w n : Nat) : (hexDigits w n).length = w := by
  induction w generalizing n with
  | zero => rfl
  | succ w ih => simp [hexDigits, ih]

theorem hexValue?_digitChar : ∀ d < 16, hexValue? (Nat.digitChar d) = some d := by
  decide

theorem hexNumber?_hexDigits (w n : Nat) :
    hexNumber? (hexDigits w n) = some (n % 16 ^ w) := by
  induction w generalizing n with
  | zero => simp [hexDigits, hexNumber?, Nat.mod_one]
  | succ w ih =>
      have hlast := hexValue?_digitChar (n % 16) (Nat.mod_lt _ (by decide))
      have hsplit : n / 16 % 16 ^ w * 16 + n % 16 = n % 16 ^ (w + 1) := by
        rw [Nat.pow_succ, Nat.mul_comm (16 ^ w) 16, Nat.mod_mul]
        omega
      have ih' := ih (n / 16)
      unfold hexNumber? at ih' ⊢
      rw [hexDigits, List.foldlM_append, ih']
      simp [hlast, hsplit]

/-- `8-4-4-4-12`, lower case. -/
def displayHyphenated (id : NodeId) : List Char :=
  let n := id.uuid.toNat
  hexDigits 8 (n / 2 ^ 96) ++ '-' :: (hexDigits 4 (n / 2 ^ 80) ++ '-' ::
    (hexDigits 4 (n / 2 ^ 64) ++ '-' :: (hexDigits 4 (n / 2 ^ 48) ++ '-' :: hexDigits 12 n)))

def parseHyphenated (cs : List Char) : Option NodeId := do
  guard (cs[8]? = some '-' ∧ cs[13]? = some '-' ∧ cs[18]? = some '-' ∧ cs[23]? = some '-'
    ∧ cs.length = 36)
  let a ← hexNumber? (cs.take 8)
  let b ← hexNumber? ((cs.drop 9).take 4)
  let c ← hexNumber? ((cs.drop 14).take 4)
  let d ← hexNumber? ((cs.drop 19).take 4)
  let e ← hexNumber? (cs.drop 24)
  some ⟨BitVec.ofNat 128 (a * 2 ^ 96 + b * 2 ^ 80 + c * 2 ^ 64 + d * 2 ^ 48 + e)⟩

/-- Cutting five groups of known lengths back out of their hyphenated
concatenation. -/
private theorem parseHyphenated_groups {a b c d e : List Char}
    (ha : a.length = 8) (hb : b.length = 4) (hc : c.length = 4) (hd : d.length = 4)
    (he : e.length = 12) :
    parseHyphenated (a ++ '-' :: (b ++ '-' :: (c ++ '-' :: (d ++ '-' :: e)))) = (do
      let a ← hexNumber? a
      let b ← hexNumber? b
      let c ← hexNumber? c
      let d ← hexNumber? d
      let e ← hexNumber? e
      some ⟨BitVec.ofNat 128 (a * 2 ^ 96 + b * 2 ^ 80 + c * 2 ^ 64 + d * 2 ^ 48 + e)⟩) := by
  simp [parseHyphenated, List.drop_append, ha, hb, hc, hd, he, List.drop_eq_nil_of_le]

theorem parseHyphenated_displayHyphenated (id : NodeId) :
    parseHyphenated (displayHyphenated id) = some id := by
  obtain ⟨u⟩ := id
  rw [displayHyphenated, parseHyphenated_groups (hexDigits_length _ _) (hexDigits_length _ _)
    (hexDigits_length _ _) (hexDigits_length _ _) (hexDigits_length _ _)]
  simp only [hexNumber?_hexDigits, Option.bind_eq_bind, Option.bind_some]
  have hu : u.toNat < 2 ^ 128 := u.isLt
  have hsum : u.toNat / 2 ^ 96 % 16 ^ 8 * 2 ^ 96 + u.toNat / 2 ^ 80 % 16 ^ 4 * 2 ^ 80
      + u.toNat / 2 ^ 64 % 16 ^ 4 * 2 ^ 64 + u.toNat / 2 ^ 48 % 16 ^ 4 * 2 ^ 48
      + u.toNat % 16 ^ 12 = u.toNat := by
    omega
  rw [hsum, BitVec.ofNat_toNat, BitVec.setWidth_eq]

/-- The documented UUID text form, with a given hash. -/
def Crates.hyphenated (xxh3_64 : ByteArray → UInt64) : Crates where
  display id := String.ofList (displayHyphenated id)
  parse s := parseHyphenated s.toList
  xxh3_64 := xxh3_64
  parse_display id := by
    rw [String.toList_ofList]
    exact parseHyphenated_displayHyphenated id

end SelfHealingCache
