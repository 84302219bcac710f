import LlmRelay.Ecma.Decimals
import Mathlib.Data.List.Lex
import Mathlib.Data.Prod.Lex
import Mathlib.Data.Sum.Order
import Mathlib.Order.WithBot

/-!
# The order of versions

The relay compares the version it runs with one that a registry or a cache file names
(`self-update.ts`). The comparison is the semver order of the parts of the two.

## Main definitions

* `comparison`: the sign of two elements of a linear order;
* `parseVersion`, `isValidVersion`: the versions that are taken;
* `comparePrerelease`, `compareVersions`: the comparison, as it is made;
* `precedence`: where a version stands in the semver order.

## Main results

* `comparePrerelease_eq`: prereleases are compared by their identifiers;
* `compareVersions_eq`: versions are compared by their precedence.
-/

namespace LlmRelay.Update

open Ecma

/-! ## Signs of a linear order -/

section Comparison

variable {α β : Type} [LinearOrder α] [LinearOrder β]

/-- The sign of two elements: negative where the first is below the second. -/
def comparison (x y : α) : ℤ :=
  if x < y then -1 else if x = y then 0 else 1

theorem comparison_self (x : α) : comparison x x = 0 := by
  rw [comparison, if_neg (lt_irrefl x), if_pos rfl]

variable {x y : α}

theorem comparison_of_lt (h : x < y) : comparison x y = -1 :=
  if_pos h

theorem comparison_of_gt (h : y < x) : comparison x y = 1 := by
  rw [comparison, if_neg h.not_gt, if_neg h.ne']

theorem comparison_swap (x y : α) : comparison x y = -comparison y x := by
  rcases lt_trichotomy x y with h | rfl | h
  · rw [comparison_of_lt h, comparison_of_gt h]
  · rw [comparison_self, neg_zero]
  · rw [comparison_of_gt h, comparison_of_lt h, neg_neg]

theorem comparison_nonpos_iff : comparison x y ≤ 0 ↔ x ≤ y := by
  rcases lt_trichotomy x y with h | rfl | h
  · simp [comparison_of_lt h, h.le]
  · simp [comparison_self]
  · simp [comparison_of_gt h, h]

theorem comparison_eq_zero_iff : comparison x y = 0 ↔ x = y := by
  rcases lt_trichotomy x y with h | rfl | h
  · simp [comparison_of_lt h, h.ne]
  · simp [comparison_self]
  · simp [comparison_of_gt h, h.ne']

theorem comparison_of_strictMono {f : α → β} (hf : StrictMono f) (x y : α) :
    comparison (f x) (f y) = comparison x y := by
  rcases lt_trichotomy x y with h | rfl | h
  · rw [comparison_of_lt h, comparison_of_lt (hf h)]
  · rw [comparison_self, comparison_self]
  · rw [comparison_of_gt h, comparison_of_gt (hf h)]

theorem comparison_toLex (a a' : α) (b b' : β) :
    comparison (toLex (a, b)) (toLex (a', b'))
      = if a = a' then comparison b b' else comparison a a' := by
  rcases lt_trichotomy a a' with h | rfl | h
  · rw [if_neg h.ne, comparison_of_lt h, comparison_of_lt (Prod.Lex.toLex_lt_toLex.mpr (.inl h))]
  · rw [if_pos rfl]
    have hmono : StrictMono fun b : β => toLex (a, b) := by
      intro b b' h
      exact Prod.Lex.toLex_lt_toLex.mpr (.inr ⟨rfl, h⟩)
    exact comparison_of_strictMono hmono b b'
  · rw [if_neg h.ne', comparison_of_gt h, comparison_of_gt (Prod.Lex.toLex_lt_toLex.mpr (.inl h))]

theorem comparison_cons (a a' : α) (l l' : List α) :
    comparison (a :: l) (a' :: l') = if a = a' then comparison l l' else comparison a a' := by
  rcases lt_trichotomy a a' with h | rfl | h
  · rw [if_neg h.ne, comparison_of_lt h, comparison_of_lt (List.Lex.rel h)]
  · rw [if_pos rfl]
    have hmono : StrictMono (List.cons a) := fun _ _ h => List.Lex.cons h
    exact comparison_of_strictMono hmono l l'
  · rw [if_neg h.ne', comparison_of_gt h, comparison_of_gt (List.Lex.rel h)]

theorem comparison_nil_cons (a : α) (l : List α) : comparison [] (a :: l) = -1 :=
  comparison_of_lt List.Lex.nil

theorem comparison_cons_nil (a : α) (l : List α) : comparison (a :: l) [] = 1 :=
  comparison_of_gt List.Lex.nil

end Comparison

/-! ## Parsing -/

/-- A code unit of `[0-9A-Za-z.-]`. -/
def isIdentifierUnit (c : CodeUnit) : Bool :=
  isDigit c || (decide (0x41 ≤ c) && decide (c ≤ 0x5A)) || (decide (0x61 ≤ c) && decide (c ≤ 0x7A))
    || c == 0x2E || c == 0x2D

/-- What the pattern of versions captures. -/
structure VersionParts where
  major : Text
  minor : Text
  patch : Text
  prerelease : Option Text
  deriving DecidableEq

/-- `\d+`, and what follows it. -/
def digits? (t : Text) : Option (Text × Text) :=
  if t.takeWhile isDigit = [] then none else some (t.takeWhile isDigit, t.dropWhile isDigit)

/-- `\.`, and what follows it. -/
def afterDot? (t : Text) : Option Text :=
  if t.head? = some 0x2E then some t.tail else none

/-- `(?:\+[0-9A-Za-z.-]+)?$`. -/
def isBuild : Text → Bool
  | [] => true
  | c :: rest => c == 0x2B && rest != [] && rest.all isIdentifierUnit

/-- `(?:-([0-9A-Za-z.-]+))?` and the rest of the pattern. -/
def prerelease? (t : Text) : Option (Option Text) :=
  if t.head? = some 0x2D then
    let identifiers := t.tail.takeWhile isIdentifierUnit
    if identifiers ≠ [] ∧ isBuild (t.tail.dropWhile isIdentifierUnit) then some (some identifiers)
    else none
  else if isBuild t then some none
  else none

/-- `/^v?(\d+)\.(\d+)\.(\d+)(?:-([0-9A-Za-z.-]+))?(?:\+[0-9A-Za-z.-]+)?$/`. -/
def versionParts (t : Text) : Option VersionParts := do
  let (major, t) ← digits? (if t.head? = some 0x76 then t.tail else t)
  let t ← afterDot? t
  let (minor, t) ← digits? t
  let t ← afterDot? t
  let (patch, t) ← digits? t
  let prerelease ← prerelease? t
  return { major, minor, patch, prerelease }

structure Parsed where
  release : List Number
  prerelease : Option Text
  deriving DecidableEq

def parseVersion (v : Text) : Option Parsed :=
  (versionParts v.trim).map fun parts =>
    { release := [Number.ofText parts.major, Number.ofText parts.minor, Number.ofText parts.patch]
      prerelease := parts.prerelease }

def isValidVersion (v : Text) : Bool :=
  (parseVersion v).isSome

/-! ## Comparing -/

def dot : CodeUnit := 0x2E

/-- `/^\d+$/`. -/
def isNumeric (t : Text) : Bool :=
  t != [] && t.all isDigit

/-- The sign of a difference that is not zero. -/
def signOfDifference (x y : Number) : Option ℤ :=
  if x.sub y = .fin 0 then none else some (if (x.sub y).lt (.fin 0) then -1 else 1)

/-- The identifiers one after another. -/
def compareIdentifiers : List Text → List Text → ℤ
  | [], [] => 0
  | [], _ :: _ => -1
  | _ :: _, [] => 1
  | x :: xs, y :: ys =>
    if isNumeric x && isNumeric y then
      (signOfDifference (Number.ofText x) (Number.ofText y)).getD (compareIdentifiers xs ys)
    else if isNumeric x ≠ isNumeric y then (if isNumeric x then -1 else 1)
    else if x ≠ y then (if x < y then -1 else 1)
    else compareIdentifiers xs ys

def comparePrerelease (a b : Text) : ℤ :=
  compareIdentifiers (List.splitOn dot a) (List.splitOn dot b)

/-- The end of `compareVersions`: the releases are equal. -/
def comparePrereleases (a b : Option Text) : ℤ :=
  if a = b then 0
  else match a, b with
    | none, _ => 1
    | _, none => -1
    | some a, some b => comparePrerelease a b

/-- What does not parse sorts equal. -/
def compareVersions (a b : Text) : ℤ :=
  match parseVersion a, parseVersion b with
  | some pa, some pb =>
    match (pa.release.zip pb.release).findSome? fun p => signOfDifference p.1 p.2 with
    | some sign => sign
    | none => comparePrereleases pa.prerelease pb.prerelease
  | _, _ => 0

def isOutdated (current latest : Text) : Bool :=
  decide (compareVersions current latest < 0)

/-! ## The semver order -/

/-- The number that digits denote. -/
def decimalValue (t : Text) : Nat :=
  ofDigits (t.map digitValue)

/-- Identifiers in their order: numbers by value, below all others, which are in ASCII order. -/
def identifierKey (t : Text) : ℕ ⊕ₗ List ℕ :=
  if isNumeric t then toLex (.inl (decimalValue t)) else toLex (.inr (t.map UInt16.toNat))

/-- The identifiers of a prerelease; a release is above all of them. -/
def prereleaseKey : Option Text → WithTop (List (ℕ ⊕ₗ List ℕ))
  | none => ⊤
  | some t => ((List.splitOn dot t).map identifierKey : List (ℕ ⊕ₗ List ℕ))

/-- Where a version stands: the release numbers, and then the prerelease. Build metadata do not
count. -/
def VersionParts.key (parts : VersionParts) :
    ℕ ×ₗ ℕ ×ₗ ℕ ×ₗ WithTop (List (ℕ ⊕ₗ List ℕ)) :=
  toLex (decimalValue parts.major, toLex (decimalValue parts.minor,
    toLex (decimalValue parts.patch, prereleaseKey parts.prerelease)))

def precedence (v : Text) : Option (ℕ ×ₗ ℕ ×ₗ ℕ ×ₗ WithTop (List (ℕ ⊕ₗ List ℕ))) :=
  (versionParts v.trim).map VersionParts.key

/-- Digits that denote a number the language holds exactly. -/
def IsExact (t : Text) : Prop :=
  decimalValue t ≤ maxSafeInteger

instance (t : Text) : Decidable (IsExact t) :=
  inferInstanceAs (Decidable (_ ≤ _))

/-- All numbers of the version are held exactly. -/
def HasExactNumbers (v : Text) : Prop :=
  ∀ parts, versionParts v.trim = some parts →
    IsExact parts.major ∧ IsExact parts.minor ∧ IsExact parts.patch ∧
      ∀ t ∈ parts.prerelease, ∀ x ∈ List.splitOn dot t, isNumeric x = true → IsExact x

/-! ## Numbers -/

theorem isWhitespace_of_isDigit {c : CodeUnit} (h : isDigit c = true) : isWhitespace c = false := by
  simp only [isDigit, Bool.and_eq_true, decide_eq_true_eq, UInt16.le_iff_toNat_le,
    UInt16.reduceToNat] at h
  simp only [isWhitespace, Bool.or_eq_false_iff, Bool.and_eq_false_iff, decide_eq_false_iff_not,
    beq_eq_false_iff_ne, ne_eq, UInt16.le_iff_toNat_le, ← UInt16.toNat_inj, UInt16.reduceToNat]
  omega

variable {t x : Text}

theorem dropWhile_of_forall {p : CodeUnit → Bool} (h : ∀ c ∈ t, p c = false) :
    t.dropWhile p = t := by
  cases t with
  | nil => rfl
  | cons c t => rw [List.dropWhile_cons_of_neg (Bool.eq_false_iff.mp (h c List.mem_cons_self))]

theorem trim_of_forall (h : ∀ c ∈ t, isWhitespace c = false) : t.trim = t := by
  rw [Text.trim, Text.trimStart, dropWhile_of_forall h, Text.trimEnd, dropWhile_of_forall,
    List.reverse_reverse]
  exact fun c hc => h c (List.mem_reverse.mp hc)

theorem ofText_of_isNumeric (h : isNumeric t = true) :
    Number.ofText t = roundToDouble (decimalValue t) := by
  rw [isNumeric, Bool.and_eq_true, bne_iff_ne, List.all_eq_true] at h
  obtain ⟨hne, hdigits⟩ := h
  -- nothing that is not made of digits is met
  have hmarks : ∀ {u : Text} {c : CodeUnit}, c ∈ u → isDigit c = false →
      ∀ v : Text, (∀ d ∈ v, d ∈ t) → v ≠ u := by
    rintro u c hc hfalse v hv rfl
    rw [hdigits c (hv c hc)] at hfalse
    cases hfalse
  have htake : ∀ {u : Text} {c : CodeUnit}, c ∈ u → isDigit c = false → t.take 2 ≠ u :=
    fun hc hfalse => hmarks hc hfalse _ fun _ h => List.mem_of_mem_take h
  have hhead : ∀ {c : CodeUnit}, isDigit c = false → t.head? ≠ some c := by
    intro c hfalse hc
    rw [hdigits c (List.mem_of_mem_head? hc)] at hfalse
    cases hfalse
  have hdecimal : unsignedDecimal? t = some (decimalValue t : ℚ) := by
    have htakeWhile : t.takeWhile isDigit = t := List.takeWhile_eq_self_iff.mpr hdigits
    have hdropWhile : t.dropWhile isDigit = [] := List.dropWhile_eq_nil_iff.mpr hdigits
    rw [unsignedDecimal?, spanDigits, htakeWhile, hdropWhile]
    have hfraction : fractionDigits [] = ([], []) := rfl
    have hexponent : exponentPart? [] = some (0, []) := rfl
    simp only [hfraction, hexponent, Decimal.value]
    rw [if_neg fun h => hne (List.map_eq_nil_iff.mp h.1)]
    simp [decimalValue, pow10]
  rw [Number.ofText, trim_of_forall fun c hc => isWhitespace_of_isDigit (hdigits c hc)]
  dsimp only
  rw [if_neg hne, if_neg (not_or.mpr ⟨htake (c := 0x78) (by decide) (by decide),
      htake (c := 0x58) (by decide) (by decide)⟩),
    if_neg (not_or.mpr ⟨htake (c := 0x6F) (by decide) (by decide),
      htake (c := 0x4F) (by decide) (by decide)⟩),
    if_neg (not_or.mpr ⟨htake (c := 0x62) (by decide) (by decide),
      htake (c := 0x42) (by decide) (by decide)⟩),
    if_neg (hhead (by decide)), if_neg (hhead (by decide)),
    if_neg (hmarks (c := 0x49) (by decide) (by decide) t fun _ h => h), hdecimal]
  simp

theorem ofText_of_isExact (h : isNumeric t = true) (hexact : IsExact t) :
    Number.ofText t = .fin (decimalValue t) := by
  rw [ofText_of_isNumeric h]
  exact isDouble_natCast hexact

theorem signOfDifference_natCast (m n : ℕ) :
    signOfDifference (.fin m) (.fin n) = if m = n then none else some (comparison m n) := by
  rw [signOfDifference, Number.sub_fin]
  rcases lt_trichotomy m n with h | rfl | h
  · have hlt : (m : ℚ) - n < 0 := sub_neg.mpr (Nat.cast_lt.mpr h)
    rw [if_neg h.ne, comparison_of_lt h, if_neg fun heq => hlt.ne (Number.fin.inj heq),
      Number.lt_fin, decide_eq_true hlt]
    rfl
  · rw [sub_self, if_pos rfl, if_pos rfl]
  · have hgt : 0 < (m : ℚ) - n := sub_pos.mpr (Nat.cast_lt.mpr h)
    rw [if_neg h.ne', comparison_of_gt h, if_neg fun heq => hgt.ne' (Number.fin.inj heq),
      Number.lt_fin, decide_eq_false hgt.not_gt]
    rfl

/-! ## Identifiers -/

theorem map_toNat_lt {y : Text} (h : x < y) : x.map UInt16.toNat < y.map UInt16.toNat := by
  change List.Lex (· < ·) x y at h
  induction h with
  | nil => exact List.Lex.nil
  | cons _ ih => exact List.Lex.cons ih
  | rel h => exact List.Lex.rel (UInt16.lt_iff_toNat_lt.mp h)

theorem comparison_map_toNat {y : Text} (hne : x ≠ y) :
    comparison (x.map UInt16.toNat) (y.map UInt16.toNat) = if x < y then -1 else 1 := by
  by_cases hlt : x < y
  · rw [if_pos hlt, comparison_of_lt (map_toNat_lt hlt)]
  · have hgt : y < x := by
      rcases List.le_iff_lt_or_eq.mp (List.not_lt.mp hlt) with h | h
      · exact h
      · exact absurd h.symm hne
    rw [if_neg hlt, comparison_of_gt (map_toNat_lt hgt)]

theorem identifierKey_of_numeric (h : isNumeric x = true) :
    identifierKey x = toLex (.inl (decimalValue x)) :=
  if_pos h

theorem identifierKey_of_not_numeric (h : isNumeric x = false) :
    identifierKey x = toLex (.inr (x.map UInt16.toNat)) :=
  if_neg (Bool.eq_false_iff.mp h)

theorem comparison_inl (m n : ℕ) :
    comparison (toLex (.inl m) : ℕ ⊕ₗ List ℕ) (toLex (.inl n)) = comparison m n := by
  have hmono : StrictMono fun m : ℕ => (toLex (.inl m) : ℕ ⊕ₗ List ℕ) :=
    fun _ _ h => Sum.Lex.inl_lt_inl_iff.mpr h
  exact comparison_of_strictMono hmono m n

theorem comparison_inr (s t : List ℕ) :
    comparison (toLex (.inr s) : ℕ ⊕ₗ List ℕ) (toLex (.inr t)) = comparison s t := by
  have hmono : StrictMono fun s : List ℕ => (toLex (.inr s) : ℕ ⊕ₗ List ℕ) :=
    fun _ _ h => Sum.Lex.inr_lt_inr_iff.mpr h
  exact comparison_of_strictMono hmono s t

/-- **Identifiers** are compared by their keys. -/
theorem compareIdentifiers_eq {xs ys : List Text} (hxs : ∀ x ∈ xs, isNumeric x = true → IsExact x)
    (hys : ∀ y ∈ ys, isNumeric y = true → IsExact y) :
    compareIdentifiers xs ys = comparison (xs.map identifierKey) (ys.map identifierKey) := by
  induction xs generalizing ys with
  | nil =>
    cases ys with
    | nil => exact (comparison_self _).symm
    | cons y ys => exact (comparison_nil_cons _ _).symm
  | cons x xs ih =>
    cases ys with
    | nil => exact (comparison_cons_nil _ _).symm
    | cons y ys =>
      obtain ⟨hx, hxs⟩ := List.forall_mem_cons.mp hxs
      obtain ⟨hy, hys⟩ := List.forall_mem_cons.mp hys
      have ih := ih hxs hys
      rw [List.map_cons, List.map_cons, comparison_cons, compareIdentifiers]
      cases hnx : isNumeric x with
      | true =>
        cases hny : isNumeric y with
        | true =>
          rw [identifierKey_of_numeric hnx, identifierKey_of_numeric hny,
            ofText_of_isExact hnx (hx hnx), ofText_of_isExact hny (hy hny),
            signOfDifference_natCast, comparison_inl]
          by_cases heq : decimalValue x = decimalValue y
          · simp [heq, ih]
          · simp [heq]
        | false =>
          have hlt : identifierKey x < identifierKey y := by
            rw [identifierKey_of_numeric hnx, identifierKey_of_not_numeric hny]
            exact Sum.Lex.inl_lt_inr _ _
          rw [if_neg hlt.ne, comparison_of_lt hlt]
          simp
      | false =>
        cases hny : isNumeric y with
        | true =>
          have hgt : identifierKey y < identifierKey x := by
            rw [identifierKey_of_numeric hny, identifierKey_of_not_numeric hnx]
            exact Sum.Lex.inl_lt_inr _ _
          rw [if_neg hgt.ne', comparison_of_gt hgt]
          simp
        | false =>
          rw [identifierKey_of_not_numeric hnx, identifierKey_of_not_numeric hny, comparison_inr]
          by_cases heq : x = y
          · simp [heq, ih]
          · have hkeys : x.map UInt16.toNat ≠ y.map UInt16.toNat := fun h =>
              heq (List.map_injective_iff.mpr (fun _ _ => UInt16.toNat_inj.mp) h)
            simp [heq, hkeys, comparison_map_toNat heq]

/-! ## Versions -/

/-- **Prereleases** are compared by their identifiers, below a release. -/
theorem comparison_prereleaseKey (p q : Option Text)
    (hp : ∀ t ∈ p, ∀ x ∈ List.splitOn dot t, isNumeric x = true → IsExact x)
    (hq : ∀ t ∈ q, ∀ x ∈ List.splitOn dot t, isNumeric x = true → IsExact x) :
    comparison (prereleaseKey p) (prereleaseKey q) = comparePrereleases p q := by
  unfold comparePrereleases
  by_cases heq : p = q
  · rw [heq, if_pos rfl, comparison_self]
  · rw [if_neg heq]
    cases p with
    | none =>
      cases q with
      | none => exact absurd rfl heq
      | some b => exact comparison_of_gt (WithTop.coe_lt_top _)
    | some a =>
      cases q with
      | none => exact comparison_of_lt (WithTop.coe_lt_top _)
      | some b =>
        have hmono : StrictMono fun l : List (ℕ ⊕ₗ List ℕ) => (l : WithTop (List (ℕ ⊕ₗ List ℕ))) :=
          fun _ _ h => WithTop.coe_lt_coe.mpr h
        dsimp only
        rw [comparePrerelease, compareIdentifiers_eq (hp a rfl) (hq b rfl)]
        exact comparison_of_strictMono hmono _ _

theorem isNumeric_of_digits? {d rest : Text} (h : digits? t = some (d, rest)) :
    isNumeric d = true := by
  rw [digits?] at h
  split_ifs at h with hne
  cases h
  rw [isNumeric, Bool.and_eq_true, bne_iff_ne]
  exact ⟨hne, List.all_takeWhile⟩

theorem isNumeric_of_versionParts {parts : VersionParts} (h : versionParts t = some parts) :
    isNumeric parts.major = true ∧ isNumeric parts.minor = true ∧ isNumeric parts.patch = true := by
  simp only [versionParts, Option.bind_eq_bind, Option.bind_eq_some_iff] at h
  obtain ⟨⟨major, t⟩, hmajor, t', -, ⟨minor, u⟩, hminor, u', -, ⟨patch, v⟩, hpatch, prerelease, -,
    hparts⟩ := h
  cases hparts
  exact ⟨isNumeric_of_digits? hmajor, isNumeric_of_digits? hminor, isNumeric_of_digits? hpatch⟩

/-- **Versions** are compared by where they stand. -/
theorem compareVersions_eq {a b : Text} {pa pb : VersionParts}
    (ha : versionParts a.trim = some pa) (hb : versionParts b.trim = some pb)
    (hea : HasExactNumbers a) (heb : HasExactNumbers b) :
    compareVersions a b = comparison pa.key pb.key := by
  obtain ⟨hmajor, hminor, hpatch⟩ := isNumeric_of_versionParts ha
  obtain ⟨hmajor', hminor', hpatch'⟩ := isNumeric_of_versionParts hb
  obtain ⟨emajor, eminor, epatch, epre⟩ := hea pa ha
  obtain ⟨emajor', eminor', epatch', epre'⟩ := heb pb hb
  rw [compareVersions, parseVersion, parseVersion, ha, hb, Option.map_some, Option.map_some]
  rw [VersionParts.key, VersionParts.key, comparison_toLex, comparison_toLex, comparison_toLex,
    comparison_prereleaseKey _ _ epre epre', ofText_of_isExact hmajor emajor,
    ofText_of_isExact hminor eminor, ofText_of_isExact hpatch epatch,
    ofText_of_isExact hmajor' emajor', ofText_of_isExact hminor' eminor',
    ofText_of_isExact hpatch' epatch']
  simp only [List.zip_cons_cons, List.findSome?_cons, signOfDifference_natCast]
  split_ifs <;> rfl

theorem exists_parts {v : Text} (h : isValidVersion v = true) :
    ∃ parts, versionParts v.trim = some parts ∧ precedence v = some parts.key := by
  rw [isValidVersion, parseVersion, Option.isSome_map, Option.isSome_iff_exists] at h
  obtain ⟨parts, hparts⟩ := h
  exact ⟨parts, hparts, by rw [precedence, hparts, Option.map_some]⟩

/-- **The comparison of versions is the semver order**, for versions whose numbers the language
holds exactly. -/
theorem compareVersions_semver {a b c : Text} (ha : isValidVersion a = true)
    (hb : isValidVersion b = true) (hc : isValidVersion c = true) (hea : HasExactNumbers a)
    (heb : HasExactNumbers b) (hec : HasExactNumbers c) :
    compareVersions a b = -compareVersions b a ∧
      (compareVersions a b ≤ 0 → compareVersions b c ≤ 0 → compareVersions a c ≤ 0) ∧
      (∃ ka kb, precedence a = some ka ∧ precedence b = some kb ∧
        compareVersions a b = comparison ka kb) ∧
      (compareVersions a b = 0 ↔ precedence a = precedence b) := by
  obtain ⟨pa, hpa, hka⟩ := exists_parts ha
  obtain ⟨pb, hpb, hkb⟩ := exists_parts hb
  obtain ⟨pc, hpc, -⟩ := exists_parts hc
  rw [compareVersions_eq hpa hpb hea heb, compareVersions_eq hpb hpa heb hea,
    compareVersions_eq hpb hpc heb hec, compareVersions_eq hpa hpc hea hec, hka, hkb]
  refine ⟨comparison_swap _ _, fun hab hbc => ?_, ⟨_, _, rfl, rfl, rfl⟩, ?_⟩
  · rw [comparison_nonpos_iff] at hab hbc ⊢
    exact hab.trans hbc
  · rw [comparison_eq_zero_iff, Option.some_inj]

theorem compareVersions_semver_prerelease :
    compareVersions (text "1.0.0-rc.9") (text "v1.0.0-rc.10+build") = -1 ∧
      compareVersions (text "1.0.0-rc.9") (text "v1.0.0-rc.10+build")
        = -compareVersions (text "v1.0.0-rc.10+build") (text "1.0.0-rc.9") := by
  have hfirst : HasExactNumbers (text "1.0.0-rc.9") := by
    rintro parts h
    cases h
    refine ⟨by decide, by decide, by decide, ?_⟩
    rintro t ht x hx -
    cases ht
    revert x
    decide
  have hsecond : HasExactNumbers (text "v1.0.0-rc.10+build") := by
    rintro parts h
    cases h
    refine ⟨by decide, by decide, by decide, ?_⟩
    rintro t ht x hx -
    cases ht
    revert x
    decide
  exact ⟨by decide +kernel, (compareVersions_semver (c := text "1.0.0-rc.9") (by decide +kernel)
    (by decide +kernel) (by decide +kernel) hfirst hsecond hfirst).1⟩

end LlmRelay.Update
