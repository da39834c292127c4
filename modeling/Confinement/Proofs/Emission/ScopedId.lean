import Confinement.Proofs.Emission.Selector

/-!
# Scoped ids

A scoped id ends with the digits of a guid, and those are as many for every guid. So it tells whose
it is by its end, whatever the local name and the first part of the token hold: hyphens, digits, or
other tokens. A selector that opens with an id passes the confinement check only if the id is scoped
by the token of the module, read up to the last character of an identifier.
-/
namespace Confinement.Emission

namespace Guid

/-- The hexadecimal digits. -/
def alphabet : List Char := "0123456789abcdef".toList

theorem hexDigit_mod (n : Nat) : hexDigit (n % 16) = hexDigit n := by simp [hexDigit]

theorem alphabet_eq : alphabet = (List.range 16).map hexDigit := by decide

theorem hexDigit_mem_alphabet (n : Nat) : hexDigit n ∈ alphabet := by
  rw [alphabet_eq, ← hexDigit_mod]
  exact List.mem_map_of_mem (List.mem_range.mpr (Nat.mod_lt n (by decide)))

theorem exists_hexDigit_eq {c : Char} (h : c ∈ alphabet) : ∃ n < 16, hexDigit n = c := by
  rw [alphabet_eq] at h
  obtain ⟨n, hn, hc⟩ := List.mem_map.mp h
  exact ⟨n, List.mem_range.mp hn, hc⟩

theorem mod_eq_of_hexDigit_eq {m n : Nat} (h : hexDigit m = hexDigit n) : m % 16 = n % 16 := by
  have small : ∀ a < 16, ∀ b < 16, hexDigit a = hexDigit b → a = b := by decide
  refine small _ (Nat.mod_lt m (by decide)) _ (Nat.mod_lt n (by decide)) ?_
  rw [hexDigit_mod, hexDigit_mod, h]

@[simp] theorem length_hexDigits (width n : Nat) : (hexDigits width n).length = width := by
  induction width generalizing n with
  | zero => rfl
  | succ width ih => simp [hexDigits, ih]

theorem mem_alphabet_of_mem_hexDigits {width n : Nat} {c : Char} (h : c ∈ hexDigits width n) :
    c ∈ alphabet := by
  induction width generalizing n with
  | zero => cases h
  | succ width ih =>
    rcases List.mem_append.mp h with h | h
    · exact ih h
    · exact List.mem_singleton.mp h ▸ hexDigit_mem_alphabet n

theorem eq_of_hexDigits_eq {width m n : Nat} (hm : m < Nat.pow 16 width)
    (hn : n < Nat.pow 16 width) (h : hexDigits width m = hexDigits width n) : m = n := by
  induction width generalizing m n with
  | zero =>
    have one : Nat.pow 16 0 = 1 := rfl
    omega
  | succ width ih =>
    have power : Nat.pow 16 (width + 1) = Nat.pow 16 width * 16 := rfl
    obtain ⟨hleading, hlast⟩ := List.append_inj' h rfl
    have quotient : m / 16 = n / 16 :=
      ih (Nat.div_lt_of_lt_mul (by omega)) (Nat.div_lt_of_lt_mul (by omega)) hleading
    have remainder : m % 16 = n % 16 := mod_eq_of_hexDigit_eq (List.singleton_inj.mp hlast)
    omega

theorem exists_hexDigits_eq {ds : List Char} (h : ∀ c ∈ ds, c ∈ alphabet) :
    ∃ n < Nat.pow 16 ds.length, hexDigits ds.length n = ds := by
  induction ds using List.reverseRecOn with
  | nil => exact ⟨0, by decide, rfl⟩
  | append_singleton ds c ih =>
    obtain ⟨n, hn, hds⟩ := ih fun d hd => h d (List.mem_append_left [c] hd)
    obtain ⟨d, hd, hc⟩ := exists_hexDigit_eq (h c (by simp))
    have power : Nat.pow 16 (ds.length + 1) = Nat.pow 16 ds.length * 16 := rfl
    have quotient : (16 * n + d) / 16 = n := by omega
    have remainder : (16 * n + d) % 16 = d := by omega
    rw [List.length_append, List.length_singleton]
    refine ⟨16 * n + d, by omega, ?_⟩
    rw [hexDigits, quotient, hds, ← hexDigit_mod, remainder, hc]

theorem length_digits (g : Guid) : g.digits.length = 32 := length_hexDigits 32 g.number.toNat

theorem eq_of_digits_eq {g g' : Guid} (h : g.digits = g'.digits) : g = g' := by
  have power : 2 ^ 128 = Nat.pow 16 32 := by decide
  have number : g.number.toNat = g'.number.toNat :=
    eq_of_hexDigits_eq (power ▸ g.number.isLt) (power ▸ g'.number.isLt) h
  cases g
  cases g'
  exact congrArg Guid.mk (BitVec.eq_of_toNat_eq number)

/-- The texts of guids are the words of thirty-two hexadecimal digits. -/
theorem exists_digits_eq_iff {ds : List Char} :
    (∃ g : Guid, g.digits = ds) ↔ ds.length = 32 ∧ ∀ c ∈ ds, c ∈ alphabet := by
  constructor
  · rintro ⟨g, rfl⟩
    exact ⟨g.length_digits, fun c hc => mem_alphabet_of_mem_hexDigits hc⟩
  · rintro ⟨hlength, hdigits⟩
    obtain ⟨n, hn, hds⟩ := exists_hexDigits_eq hdigits
    rw [hlength] at hn hds
    refine ⟨⟨BitVec.ofNat 128 n⟩, ?_⟩
    have power : 2 ^ 128 = Nat.pow 16 32 := by decide
    rw [digits, BitVec.toNat_ofNat, Nat.mod_eq_of_lt (power ▸ hn), hds]

end Guid

theorem isIdentifierBody_append {s t : List Char} (h : Text.isIdentifierBody s = true)
    (named : ∀ c ∈ t, Text.isIdentChar c = true) : Text.isIdentifierBody (s ++ t) = true := by
  cases s with
  | nil => cases h
  | cons c rest =>
    simp only [Text.isIdentifierBody, Bool.and_eq_true] at h
    simp only [List.cons_append, Text.isIdentifierBody, List.all_append, Bool.and_eq_true]
    exact ⟨h.1, h.2, List.all_eq_true.mpr named⟩

/-- An identifier may be continued by any characters of identifiers. -/
theorem isCssIdentifierChars_append {s t : List Char} (h : Text.isCssIdentifierChars s = true)
    (named : ∀ c ∈ t, Text.isIdentChar c = true) : Text.isCssIdentifierChars (s ++ t) = true := by
  unfold Text.isCssIdentifierChars at h
  split at h
  · exact isIdentifierBody_append h named
  · rename_i hhyphen
    cases s with
    | nil => cases h
    | cons c rest =>
      have hc : c ≠ '-' := fun hc => hhyphen rest (by rw [hc])
      have body := isIdentifierBody_append h named
      rw [List.cons_append] at body ⊢
      simpa [Text.isCssIdentifierChars, hc] using body

namespace Token

theorem toList_text (token : Token) :
    token.text.toList = token.stem.toList ++ ('-' :: token.guid.digits) := by
  simp [text]

theorem isCssIdentifier_text {token : Token} (h : Text.isCssIdentifier token.stem = true) :
    Text.isCssIdentifier token.text = true := by
  rw [Text.isCssIdentifier, toList_text]
  refine isCssIdentifierChars_append h fun c hc => ?_
  rcases List.mem_cons.mp hc with rfl | hc
  · decide
  · exact isIdentChar_of_mem_hexDigits hc

theorem toList_scopedId (token : Token) (loc : String) :
    (token.scopedId loc).toList =
      (loc.toList ++ '-' :: token.stem.toList ++ ['-']) ++ token.guid.digits := by
  simp [scopedId, toList_text]

/-- The guid of a token can be read off the end of every id that it scopes. -/
theorem guid_eq_of_scopedId_eq {token other : Token} {loc loc' : String}
    (h : token.scopedId loc = other.scopedId loc') : token.guid = other.guid := by
  have hchars := congrArg String.toList h
  rw [toList_scopedId, toList_scopedId] at hchars
  refine Guid.eq_of_digits_eq (List.append_inj_right' hchars ?_)
  rw [Guid.length_digits, Guid.length_digits]

end Token

/-- The id that a selector opens with: all characters of identifiers behind the number sign. -/
def openingId (id : List Char) : String := String.ofList (id.takeWhile Text.isIdentChar)

/-- Behind the token that the check has found no character of an identifier follows. -/
theorem openingId_eq {token : Token} (named : ∀ c ∈ token.text.toList, Text.isIdentChar c = true)
    {loc after : List Char} (hscoped : Scoped loc after) :
    openingId (loc ++ ['-'] ++ token.text.toList ++ after) =
      token.scopedId (String.ofList loc) := by
  have hid : ∀ c ∈ loc ++ ['-'] ++ token.text.toList, Text.isIdentChar c = true := by
    intro c hc
    simp only [List.mem_append, List.mem_singleton] at hc
    rcases hc with (hc | rfl) | hc
    · exact hscoped.named c hc
    · decide
    · exact named c hc
  have hafter : after.takeWhile Text.isIdentChar = [] := by
    cases after with
    | nil => rfl
    | cons c rest => exact List.takeWhile_cons_of_neg (by simp [hscoped.ends c rfl])
  rw [openingId, List.takeWhile_append_of_pos hid, hafter, List.append_nil]
  simp [Token.scopedId, String.ofList_append, String.append_assoc]

theorem exists_openingId_eq {token : Token}
    (named : ∀ c ∈ token.text.toList, Text.isIdentChar c = true) {x : String} {id : List Char}
    (confined : checkConfined x token = .ok ()) (opens : Text.trim x.toList = '#' :: id) :
    ∃ loc, loc ≠ "" ∧ (∀ c ∈ loc.toList, Text.isIdentChar c = true) ∧
      openingId id = token.scopedId loc := by
  obtain ⟨-, ⟨after, hclass, -⟩ | ⟨id', loc, after, hid, hsplit, hscoped⟩⟩ :=
    checkConfined_eq_ok_iff.mp confined
  · rw [opens] at hclass
    cases hclass
  · rw [opens] at hid
    cases hid
    refine ⟨String.ofList loc, ?_, ?_, ?_⟩
    · simpa using hscoped.nonempty
    · simpa using hscoped.named
    · rw [splitFirst_eq_some hsplit]
      exact openingId_eq named hscoped

/-- The guid part of a token may be any thirty-two hexadecimal digits. A token whose first part is
an identifier can be made and is an identifier itself. No id that it scopes is an id that a token
with another guid scopes, whatever the local names; and a selector with an id that passes the check
under the token opens with an id that the token scopes, which is then no id of another token. -/
theorem scoped_ids_never_collide (token : Token)
    (accepted : Text.isCssIdentifier token.stem = true) :
    (∀ ds, (∃ g : Guid, g.digits = ds) ↔ ds.length = 32 ∧ ∀ c ∈ ds, c ∈ Guid.alphabet) ∧
    Token.make? token.stem token.guid = some token ∧
    Text.isCssIdentifier token.text = true ∧
    (∀ other : Token, other.guid.digits ≠ token.guid.digits →
      ∀ loc loc', token.scopedId loc ≠ other.scopedId loc') ∧
    ∀ x id, checkConfined x token = .ok () → Text.trim x.toList = '#' :: id →
      (∃ loc, loc ≠ "" ∧ (∀ c ∈ loc.toList, Text.isIdentChar c = true) ∧
        openingId id = token.scopedId loc) ∧
      ∀ other : Token, other.guid.digits ≠ token.guid.digits →
        ∀ loc', openingId id ≠ other.scopedId loc' := by
  have made : Token.make? token.stem token.guid = some token := if_pos accepted
  have apart : ∀ other : Token, other.guid.digits ≠ token.guid.digits →
      ∀ loc loc', token.scopedId loc ≠ other.scopedId loc' :=
    fun other hne loc loc' heq => hne (by rw [Token.guid_eq_of_scopedId_eq heq])
  refine ⟨fun ds => Guid.exists_digits_eq_iff, made, Token.isCssIdentifier_text accepted, apart,
    fun x id confined opens => ?_⟩
  obtain ⟨loc, hne, hloc, hid⟩ :=
    exists_openingId_eq (isIdentChar_of_mem_token made) confined opens
  exact ⟨⟨loc, hne, hloc, hid⟩, fun other hother loc' => hid ▸ apart other hother loc loc'⟩

/-- A token whose first part starts with a hyphen and ends with digits of a guid. -/
def digitStem : Token := ⟨"-a-6d1c", .ofIndex 1⟩

/-- The local part of the id is the whole token of another module. -/
def foreignLocal : List Char := Token.first.text.toList ++ '-' :: digitStem.text.toList

def foreignSelector : String := " #" ++ String.ofList foreignLocal ++ ":hover > p"

/-- An id with the token of another module in its local part is no id of that module. -/
theorem scoped_ids_never_collide_of_foreignLocal :
    Text.isCssIdentifier digitStem.stem = true ∧ Text.isCssIdentifier digitStem.text = true ∧
    Token.first.guid.digits ≠ digitStem.guid.digits ∧
    checkConfined foreignSelector digitStem = .ok () ∧
    (∃ loc, loc ≠ "" ∧ (∀ c ∈ loc.toList, Text.isIdentChar c = true) ∧
      openingId (foreignLocal ++ ":hover > p".toList) = digitStem.scopedId loc) ∧
    ∀ loc', openingId (foreignLocal ++ ":hover > p".toList) ≠ Token.first.scopedId loc' := by
  have accepted : Text.isCssIdentifier digitStem.stem = true := by decide
  have other : Token.first.guid.digits ≠ digitStem.guid.digits := by decide
  have confined : checkConfined foreignSelector digitStem = .ok () := by decide +kernel
  have opens : Text.trim foreignSelector.toList = '#' :: (foreignLocal ++ ":hover > p".toList) := by
    decide +kernel
  obtain ⟨-, -, identifier, -, selectors⟩ := scoped_ids_never_collide digitStem accepted
  obtain ⟨own, apart⟩ := selectors foreignSelector _ confined opens
  exact ⟨accepted, identifier, other, confined, own, apart Token.first other⟩

end Confinement.Emission
