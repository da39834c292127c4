import Confinement.Proofs.Emission.Selector

/-!
# Confined selectors

The confinement check counts the scoping token from the left and without overlap, and takes the
first occurrence for the one that a scoped id ends with. A token may overlap itself. Even so the
check accepts exactly the selectors of the two confined shapes in which the token stands at one
place, overlaps counted. In both shapes no identifier goes on behind the token, and that is where
an occurrence that overlaps the first one would have to go on.
-/
namespace Confinement.Emission

/-- The needle stands at this place of the text. -/
def OccursAt (needle s : List Char) (i : Nat) : Prop := needle <+: s.drop i

section
variable {needle : List Char}

theorem occursAt_zero_iff {s : List Char} : OccursAt needle s 0 ↔ needle.isPrefixOf s = true :=
  List.isPrefixOf_iff_prefix.symm

theorem not_occursAt_nil (hne : needle ≠ []) (i : Nat) : ¬ OccursAt needle [] i := by
  simp [OccursAt, hne]

theorem occursAt_append_iff {s t : List Char} {i : Nat} :
    OccursAt needle (s ++ t) (s.length + i) ↔ OccursAt needle t i := by
  simp [OccursAt]

theorem occursAt_length (before after : List Char) :
    OccursAt needle (before ++ (needle ++ after)) before.length := by
  rw [OccursAt, List.drop_left]
  exact List.prefix_append needle after

/-- The first occurrence is found if there is one. -/
theorem splitFirst_eq_none_iff (hne : needle ≠ []) (s : List Char) :
    splitFirst needle s = none ↔ ∀ i, ¬ OccursAt needle s i := by
  induction s with
  | nil => simp [splitFirst, hne, not_occursAt_nil hne]
  | cons c s ih =>
    rw [splitFirst]
    split
    · rename_i hprefix
      exact iff_of_false (by simp) fun h => h 0 (occursAt_zero_iff.mpr hprefix)
    · rename_i hprefix
      rw [Option.map_eq_none_iff, ih]
      refine ⟨fun h i => ?_, fun h i => h (i + 1)⟩
      cases i with
      | zero => exact fun h0 => hprefix (occursAt_zero_iff.mp h0)
      | succ i => exact h i

/-- No occurrence stands in front of the one that is found. -/
theorem length_le_of_splitFirst {s before after : List Char}
    (h : splitFirst needle s = some (before, after)) {i : Nat} (hi : OccursAt needle s i) :
    before.length ≤ i := by
  induction s generalizing before i with
  | nil =>
    unfold splitFirst at h
    split at h
    · cases h
      exact Nat.zero_le i
    · cases h
  | cons c s ih =>
    unfold splitFirst at h
    split at h
    · cases h
      exact Nat.zero_le i
    · rename_i hprefix
      obtain ⟨⟨b, a⟩, hsplit, hba⟩ := Option.map_eq_some_iff.mp h
      cases hba
      cases i with
      | zero => exact absurd (occursAt_zero_iff.mp hi) hprefix
      | succ i => exact Nat.succ_le_succ (ih hsplit hi)

theorem occurrencesAfter_eq (skipping : Nat) (s : List Char) :
    occurrencesAfter needle skipping s = occurrences needle (s.drop skipping) := by
  induction s generalizing skipping with
  | nil => cases skipping <;> rfl
  | cons c s ih =>
    cases skipping with
    | zero => rfl
    | succ skipping => exact ih skipping

/-- Counting goes on behind the first occurrence. -/
theorem occurrences_eq (hne : needle ≠ []) (s : List Char) :
    occurrences needle s =
      match splitFirst needle s with
      | none => 0
      | some (_, after) => occurrences needle after + 1 := by
  induction s with
  | nil => simp [splitFirst, hne, occurrences, occurrencesAfter]
  | cons c s ih =>
    rw [occurrences, occurrencesAfter, splitFirst]
    split
    · obtain ⟨n, hn⟩ := Nat.exists_eq_succ_of_ne_zero (mt List.length_eq_zero_iff.mp hne)
      rw [occurrencesAfter_eq, hn, Nat.add_comm]
      rfl
    · rw [← occurrences, ih]
      cases splitFirst needle s <;> rfl

theorem occurrences_eq_zero_iff (hne : needle ≠ []) (s : List Char) :
    occurrences needle s = 0 ↔ ∀ i, ¬ OccursAt needle s i := by
  rw [← splitFirst_eq_none_iff hne, occurrences_eq hne]
  cases splitFirst needle s <;> simp

/-- A second occurrence that overlaps the first would put one of its characters right behind it. -/
theorem not_occursAt_overlap {after : List Char} (apart : ∀ c, after.head? = some c → c ∉ needle)
    {i : Nat} (hpos : 0 < i) (hlt : i < needle.length) :
    ¬ OccursAt needle (needle ++ after) i := by
  rintro ⟨t, ht⟩
  rw [List.drop_append_of_le_length (Nat.le_of_lt hlt)] at ht
  have hafter : after = needle.drop (needle.length - i) ++ t := by
    have hdrop := congrArg (List.drop (needle.length - i)) ht
    rw [List.drop_append_of_le_length (Nat.sub_le ..), List.drop_left' List.length_drop] at hdrop
    exact hdrop.symm
  have hlast : needle.drop (needle.length - i) ≠ [] := by
    rw [Ne, List.drop_eq_nil_iff]
    omega
  obtain ⟨c, rest, hc⟩ := List.exists_cons_of_ne_nil hlast
  refine apart c (by rw [hafter, hc]; rfl) (List.mem_of_mem_drop (i := needle.length - i) ?_)
  rw [hc]
  exact List.mem_cons_self ..

/-- Where the text behind an occurrence does not start with a character of the needle, the needle
stands at no other place just if this occurrence is the first and the count is one. -/
theorem existsUnique_occursAt_iff (hne : needle ≠ []) (before : List Char) {s after : List Char}
    (hs : s = before ++ (needle ++ after)) (apart : ∀ c, after.head? = some c → c ∉ needle) :
    (∃! i, OccursAt needle s i) ↔
      splitFirst needle s = some (before, after) ∧ occurrences needle s = 1 := by
  have here : OccursAt needle s before.length := hs ▸ occursAt_length before after
  have behind {i : Nat} : OccursAt needle s (before.length + (needle.length + i)) ↔
      OccursAt needle after i := by
    rw [hs, occursAt_append_iff, occursAt_append_iff]
  have length_pos : 0 < needle.length := List.length_pos_iff.mpr hne
  have count {b a : List Char} (hsplit : splitFirst needle s = some (b, a)) :
      occurrences needle s = 1 ↔ ∀ i, ¬ OccursAt needle a i := by
    rw [occurrences_eq hne, hsplit, ← occurrences_eq_zero_iff hne]
    exact Nat.succ_inj
  constructor
  · intro unique
    cases hsplit : splitFirst needle s with
    | none => exact absurd here ((splitFirst_eq_none_iff hne s).mp hsplit _)
    | some p =>
      obtain ⟨b, a⟩ := p
      have hba : s = b ++ (needle ++ a) := by rw [splitFirst_eq_some hsplit, List.append_assoc]
      have hlength : b.length = before.length :=
        unique.unique (hba ▸ occursAt_length b a) here
      obtain ⟨rfl, hrest⟩ := List.append_inj (hba.symm.trans hs) hlength
      obtain rfl := List.append_cancel_left hrest
      refine ⟨rfl, (count hsplit).mpr fun i hi => ?_⟩
      have := unique.unique (behind.mpr hi) here
      omega
  · rintro ⟨hsplit, hcount⟩
    refine ⟨before.length, here, fun i hi => ?_⟩
    obtain ⟨k, rfl⟩ := Nat.exists_eq_add_of_le (length_le_of_splitFirst hsplit hi)
    rcases Nat.lt_or_ge k needle.length with hk | hk
    · have hpos : ¬ 0 < k := fun hpos =>
        not_occursAt_overlap apart hpos hk (occursAt_append_iff.mp (hs ▸ hi))
      omega
    · obtain ⟨j, rfl⟩ := Nat.exists_eq_add_of_le hk
      exact absurd (behind.mp hi) ((count hsplit).mp hcount j)

end

/-- The selector is the class of the token, or an id that is scoped by it, with what may follow. -/
def HasConfinedShape (token s : List Char) : Prop :=
  (∃ after, s = '.' :: (token ++ after) ∧ Descends after) ∨
    ∃ loc after, s = '#' :: (loc ++ '-' :: (token ++ after)) ∧ Scoped loc after

/-- The token stands at one place of a selector, overlaps counted, where one of the two confined
shapes has it. -/
def Confined (token s : List Char) : Prop :=
  (∃! i, OccursAt token s i) ∧ HasConfinedShape token s

/-- The opening character belongs to no token, so the token is found behind it. -/
theorem splitFirst_cons {needle : List Char} {c : Char} (hne : needle ≠ []) (hc : c ∉ needle)
    (s : List Char) :
    splitFirst needle (c :: s) = (splitFirst needle s).map fun p => (c :: p.1, p.2) := by
  obtain ⟨d, needle, rfl⟩ := List.exists_cons_of_ne_nil hne
  rw [splitFirst, if_neg]
  rw [List.isPrefixOf_iff_prefix, List.cons_prefix_cons]
  rintro ⟨rfl, -⟩
  exact hc (List.mem_cons_self ..)

theorem splitFirst_append {needle : List Char} (hne : needle ≠ []) (after : List Char) :
    splitFirst needle (needle ++ after) = some ([], after) := by
  obtain ⟨d, needle, rfl⟩ := List.exists_cons_of_ne_nil hne
  simp [splitFirst]

theorem skipCompound_isSuffix (depth : Nat) (quote : Option Char) (s : List Char) :
    skipCompound depth quote s <:+ s := by
  induction s generalizing depth quote with
  | nil => exact List.suffix_rfl
  | cons c s ih =>
    have passed (depth : Nat) (quote : Option Char) : skipCompound depth quote s <:+ c :: s :=
      (ih depth quote).trans (List.suffix_cons c s)
    cases quote with
    | some q => exact passed depth _
    | none =>
      simp only [skipCompound]
      split
      · exact passed depth (some c)
      split
      · exact passed (depth + 1) none
      split
      · exact passed (depth - 1) none
      split
      · exact List.suffix_rfl
      · exact passed depth none

section
variable {needle : List Char} (hne : needle ≠ []) (named : ∀ c ∈ needle, Text.isIdentChar c = true)
include named

theorem not_mem_of_isIdentChar_eq_false {c : Char} (hc : Text.isIdentChar c = false) :
    c ∉ needle := by
  intro hmem
  rw [named c hmem] at hc
  cases hc

include hne

/-- Neither in front of the scoping class nor behind it can the token overlap itself. -/
theorem existsUnique_occursAt_class_iff {after : List Char} (hdescends : Descends after) :
    (∃! i, OccursAt needle ('.' :: (needle ++ after)) i) ↔
      occurrences needle ('.' :: (needle ++ after)) = 1 := by
  have apart : ∀ c, after.head? = some c → c ∉ needle := by
    intro c hc hmem
    rcases hdescends with rfl | ⟨d, rest, rfl, hd, -⟩
    · cases hc
    · obtain rfl := Option.some.inj hc
      rcases hd with hblank | rfl
      · rw [Selector.isBlank_of_isIdentChar (named d hmem)] at hblank
        cases hblank
      · exact not_mem_of_isIdentChar_eq_false named (by decide) hmem
  have hsplit : splitFirst needle ('.' :: (needle ++ after)) = some (['.'], after) := by
    rw [splitFirst_cons hne (not_mem_of_isIdentChar_eq_false named (by decide)),
      splitFirst_append hne]
    rfl
  exact (existsUnique_occursAt_iff hne ['.'] rfl apart).trans (and_iff_right hsplit)

/-- The local part may hold pieces of the token, so that an earlier occurrence reaches into the one
at the end of the id. Then the first occurrence is not that one. -/
theorem existsUnique_occursAt_id_iff {loc after : List Char} (hscoped : Scoped loc after) :
    (∃! i, OccursAt needle ('#' :: (loc ++ '-' :: (needle ++ after))) i) ↔
      splitFirst needle (loc ++ '-' :: (needle ++ after)) = some (loc ++ ['-'], after) ∧
        occurrences needle ('#' :: (loc ++ '-' :: (needle ++ after))) = 1 := by
  have apart : ∀ c, after.head? = some c → c ∉ needle := fun c hc =>
    not_mem_of_isIdentChar_eq_false named (hscoped.ends c hc)
  rw [existsUnique_occursAt_iff hne ('#' :: (loc ++ ['-'])) (by simp) apart,
    splitFirst_cons hne (not_mem_of_isIdentChar_eq_false named (by decide))]
  simp

/-- In an id that mentions the token once, the token is found. -/
theorem exists_splitFirst_of_occurrences {id : List Char} (h : occurrences needle ('#' :: id) = 1) :
    ∃ before after, splitFirst needle id = some (before, after) := by
  rw [occurrences_eq hne,
    splitFirst_cons hne (not_mem_of_isIdentChar_eq_false named (by decide))] at h
  cases hsplit : splitFirst needle id with
  | none => simp [hsplit] at h
  | some p => exact ⟨p.1, p.2, rfl⟩

end

/-- Under a token that the host made, a selector passes the check exactly if it is confined. Where
the check looks for the token in an id, it finds it, and cuts the id into what stands in front of
the token, the token and what stands behind it; the compound ends inside the last part. -/
theorem checkConfined_iff_confined {stem : String} {guid : Guid} {token : Token}
    (made : Token.make? stem guid = some token) (x : String) :
    (checkConfined x token = .ok () ↔ Confined token.text.toList (Text.trim x.toList)) ∧
    ∀ id, Text.trim x.toList = '#' :: id →
      occurrences token.text.toList (Text.trim x.toList) = 1 →
        ∃ before after, splitFirst token.text.toList id = some (before, after) ∧
          id = before ++ token.text.toList ++ after ∧ skipCompound 0 none after <:+ after := by
  have named := isIdentChar_of_mem_token made
  have hne : token.text.toList ≠ [] := by simp [Token.text]
  refine ⟨checkConfined_eq_ok_iff.trans ?_, fun id hs hcount => ?_⟩
  · generalize Text.trim x.toList = s
    constructor
    · rintro ⟨hcount, ⟨after, rfl, hdescends⟩ | ⟨id, loc, after, rfl, hsplit, hscoped⟩⟩
      · exact ⟨(existsUnique_occursAt_class_iff hne named hdescends).mpr hcount,
          .inl ⟨after, rfl, hdescends⟩⟩
      · obtain rfl : id = loc ++ '-' :: (token.text.toList ++ after) := by
          simpa using splitFirst_eq_some hsplit
        exact ⟨(existsUnique_occursAt_id_iff hne named hscoped).mpr ⟨hsplit, hcount⟩,
          .inr ⟨loc, after, rfl, hscoped⟩⟩
    · rintro ⟨unique, ⟨after, rfl, hdescends⟩ | ⟨loc, after, rfl, hscoped⟩⟩
      · exact ⟨(existsUnique_occursAt_class_iff hne named hdescends).mp unique,
          .inl ⟨after, rfl, hdescends⟩⟩
      · obtain ⟨hsplit, hcount⟩ := (existsUnique_occursAt_id_iff hne named hscoped).mp unique
        exact ⟨hcount, .inr ⟨_, loc, after, rfl, hsplit, hscoped⟩⟩
  · rw [hs] at hcount
    obtain ⟨before, after, hsplit⟩ := exists_splitFirst_of_occurrences hne named hcount
    exact ⟨before, after, hsplit, splitFirst_eq_some hsplit, skipCompound_isSuffix 0 none after⟩

/-- A token that starts and ends with the same letter. -/
def selfOverlapping : Token := ⟨"a", .ofIndex 10⟩

/-- The local part holds a piece of the token and the compound a hidden combinator. -/
def pieceOfToken : String := " #a-6d1c-" ++ selfOverlapping.text ++ "[b='~']>p "

/-- Two occurrences that share a letter, which count as one. -/
def sharedLetter : String :=
  "#x-" ++ selfOverlapping.text ++ String.ofList (selfOverlapping.text.toList.drop 1)

/-- A selector with a piece of the token in its local part is confined. One in which the token
overlaps itself is not, though the occurrences count as one. -/
theorem checkConfined_iff_confined_of_selfOverlapping :
    Token.make? "a" (.ofIndex 10) = some selfOverlapping ∧
    Confined selfOverlapping.text.toList (Text.trim pieceOfToken.toList) ∧
    occurrences selfOverlapping.text.toList (Text.trim sharedLetter.toList) = 1 ∧
    ¬ Confined selfOverlapping.text.toList (Text.trim sharedLetter.toList) ∧
    ∀ id, Text.trim sharedLetter.toList = '#' :: id →
      ∃ before after, splitFirst selfOverlapping.text.toList id = some (before, after) ∧
        id = before ++ selfOverlapping.text.toList ++ after ∧
          skipCompound 0 none after <:+ after :=
  have made : Token.make? "a" (.ofIndex 10) = some selfOverlapping := by decide
  have accepted : checkConfined pieceOfToken selfOverlapping = .ok () := by decide +kernel
  have refused : checkConfined sharedLetter selfOverlapping ≠ .ok () := by decide +kernel
  have once : occurrences selfOverlapping.text.toList (Text.trim sharedLetter.toList) = 1 := by
    decide +kernel
  have shared := checkConfined_iff_confined made sharedLetter
  ⟨made, (checkConfined_iff_confined made pieceOfToken).1.mp accepted, once,
    fun h => refused (shared.1.mpr h), fun id hid => shared.2 id hid once⟩

end Confinement.Emission
