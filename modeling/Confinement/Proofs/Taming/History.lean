import Confinement.Proofs.Taming.Record

/-!
# Taming over time

Host code raises exceptions, faults are tamed under whatever policy is in force, and in between
guests act and new things are made. The first time that an exception is tamed its record is made and
filed; from then on the exception is tamed into that record, under any policy. So the policy that
was in force first decides for good what a record shows. And whatever came out of taming once passes
through it unchanged ever after.
-/
namespace Confinement.Taming

variable {code : Type}

/-- A vault, and the host exceptions that have been raised, in order. -/
structure Docket (code : Type) where
  vault : Vault code
  raised : List HostException := []

inductive Step (code : Type) where
  /-- Host code makes an exception. -/
  | raise (name message : String) (fields : List (String × Value))
  | tame (p : Policy) (fault : Fault)
  /-- A guest acts under some registry, or the function guardian does. -/
  | act (r : Registry) (x : Guardian.Step)
  /-- A new object or function. -/
  | make (e : Entity code)

/-- The policy under which a step tames the exception of this number. -/
def Step.policyFor? (id : Nat) : Step code → Option Policy
  | .tame p (.host ex) => if ex.id = id then some p else none
  | _ => none

/-- The policy under which an exception was tamed first. -/
def policyOf? (steps : List (Step code)) (ex : HostException) : Option Policy :=
  steps.findSome? (Step.policyFor? ex.id)

namespace Docket

def start (s : Store code) : Docket code := ⟨{ store := s }, []⟩

def store (d : Docket code) : Store code := d.vault.store

def step (d : Docket code) : Step code → Docket code
  | .raise name message fields =>
    let (ex, vault) := d.vault.newException name message fields
    ⟨vault, d.raised ++ [ex]⟩
  | .tame p fault => { d with vault := (tame p d.vault fault).2 }
  | .act r x => { d with vault := { d.vault with store := Guardian.step r d.store x } }
  | .make e => { d with vault := { d.vault with store := (d.store.alloc e).2 } }

/-- The fault is one that can come up: what is thrown is there, and what was raised has been. -/
def Knows (d : Docket code) : Fault → Prop
  | .thrown v => d.store.Holds v
  | .host ex => ex ∈ d.raised
  | _ => True

/-- The step can be taken: policies are such as can be had, and values name what is there. -/
def Sound (d : Docket code) : Step code → Prop
  | .raise _ _ fields => ∀ e ∈ fields, d.store.Holds e.2
  | .tame p fault => p.Made ∧ d.Knows fault
  | .act _ _ | .make _ => True

/-- The steps lead from `d` to `w`. -/
inductive Leads (d : Docket code) : List (Step code) → Docket code → Prop
  | refl : Leads d [] d
  | next {steps : List (Step code)} {w : Docket code} {x : Step code} (before : Leads d steps w)
      (sound : w.Sound x) : Leads d (steps ++ [x]) (w.step x)

end Docket

variable {s : Store code} {steps : List (Step code)} {d w : Docket code} {p : Policy}
  {v : Vault code} {fault : Fault} {ex ex' : HostException} {x : Value}

theorem policyOf?_concat (steps : List (Step code)) (x : Step code) (ex : HostException) :
    policyOf? (steps ++ [x]) ex = (policyOf? steps ex).or (x.policyFor? ex.id) := by
  simp only [policyOf?, List.findSome?_append]
  cases h : x.policyFor? ex.id <;> simp [h]

theorem Vault.record?_newException (v : Vault code) (name message : String)
    (fields : List (String × Value)) (ex : HostException) :
    (v.newException name message fields).2.record? ex = v.record? ex := by
  simp only [newException, record?, Array.getElem?_push]
  split
  · rename_i h
    simp [h]
  · rfl

theorem tameHost_of_record? (h : v.record? ex = some x) (p : Policy) :
    tameHost p v ex = (x, v) := by
  rw [tameHost, h]

theorem records_tameHost (h : v.record? ex = none) (p : Policy) :
    (tameHost p v ex).2.records = v.records.setIfInBounds ex.id (some (tameHost p v ex).1) := by
  rw [tameHost, h]

theorem size_records_tameHost (p : Policy) (v : Vault code) (ex : HostException) :
    (tameHost p v ex).2.records.size = v.records.size := by
  cases h : v.record? ex with
  | some record => rw [tameHost_of_record? h]
  | none => rw [records_tameHost h, Array.size_setIfInBounds]

/-- Taming files the record of an exception, unless there is one. -/
theorem record?_tameHost_self (p : Policy) (hlt : ex.id < v.records.size) :
    (tameHost p v ex).2.record? ex = some (tameHost p v ex).1 := by
  cases h : v.record? ex with
  | some record => rw [tameHost_of_record? h, h]
  | none => simp [Vault.record?, records_tameHost h, hlt]

theorem record?_tameHost_of_ne (p : Policy) (v : Vault code) (hne : ex'.id ≠ ex.id) :
    (tameHost p v ex).2.record? ex' = v.record? ex' := by
  cases h : v.record? ex with
  | some record => rw [tameHost_of_record? h]
  | none =>
    rw [Vault.record?, records_tameHost h, Array.getElem?_setIfInBounds_ne hne.symm, Vault.record?]

/-- Only an exception has anything filed for it. -/
theorem records_tame (p : Policy) (v : Vault code) (h : ∀ ex, fault ≠ .host ex) :
    (tame p v fault).2.records = v.records := by
  cases fault with
  | host ex => exact absurd rfl (h ex)
  | _ => rfl

/-- What is filed is never replaced. -/
theorem record?_step (h : d.vault.record? ex = some x) (y : Step code) :
    (d.step y).vault.record? ex = some x := by
  cases y with
  | raise name message fields =>
    exact (d.vault.record?_newException name message fields ex).trans h
  | tame p fault =>
    by_cases hhost : ∃ ex', fault = .host ex'
    · obtain ⟨ex', rfl⟩ := hhost
      by_cases hid : ex.id = ex'.id
      · have hfiled : d.vault.record? ex' = some x := by rw [← h, Vault.record?, Vault.record?, hid]
        have hkept : (d.step (.tame p (.host ex'))).vault = d.vault :=
          congrArg Prod.snd (tameHost_of_record? hfiled p)
        rw [hkept, h]
      · exact (record?_tameHost_of_ne p d.vault hid).trans h
    · have hkept : (d.step (.tame p fault)).vault.records = d.vault.records :=
        records_tame p d.vault fun ex' he => hhost ⟨ex', he⟩
      rw [Vault.record?, hkept]
      exact h
  | act r x => exact h
  | make e => exact h

theorem endures_step (d : Docket code) (y : Step code) : d.store.Endures (d.step y).store := by
  cases y with
  | raise name message fields => exact .refl _
  | tame p fault => exact .of_adds (adds_tame p d.vault fault)
  | act r x => exact Guardian.endures_step r d.store x
  | make e => exact .alloc d.store e

namespace Docket.Leads

theorem record? (leads : d.Leads steps w) (h : d.vault.record? ex = some x) :
    w.vault.record? ex = some x := by
  induction leads with
  | refl => exact h
  | next _ _ ih => exact record?_step ih _

theorem cons {y : Step code} (sound : d.Sound y) (rest : (d.step y).Leads steps w) :
    d.Leads (y :: steps) w := by
  induction rest with
  | refl => exact .next .refl sound
  | next _ soundLast ih => exact .next ih soundLast

theorem endures (leads : d.Leads steps w) : d.store.Endures w.store := by
  induction leads with
  | refl => exact .refl _
  | next _ _ ih => exact ih.trans (endures_step _ _)

end Docket.Leads

/-- How things stand after the steps: exceptions are numbered in order, each of them that has been
tamed has a record as the first policy shows it, and no other has one. -/
structure Docket.Filed (steps : List (Step code)) (d : Docket code) : Prop where
  size : d.vault.records.size = d.raised.length
  numbers : d.raised.map HostException.id = List.range d.raised.length
  held : ∀ ex ∈ d.raised, ∀ e ∈ ex.fields.entries, d.store.Holds e.2
  unborn : ∀ ex : HostException, d.raised.length ≤ ex.id → policyOf? steps ex = none
  untamed : ∀ ex ∈ d.raised, policyOf? steps ex = none → d.vault.record? ex = none
  tamed : ∀ ex ∈ d.raised, ∀ p, policyOf? steps ex = some p →
    p.Made ∧ ∃ x, d.vault.record? ex = some x ∧ Presents d.store p ex x

namespace Docket.Filed

theorem id_lt (filed : d.Filed steps) (h : ex ∈ d.raised) : ex.id < d.raised.length := by
  have hid : ex.id ∈ d.raised.map HostException.id := List.mem_map_of_mem h
  rw [filed.numbers] at hid
  exact List.mem_range.mp hid

/-- Exceptions are told apart by their numbers. -/
theorem eq_of_id_eq (filed : d.Filed steps) (h : ex ∈ d.raised) (h' : ex' ∈ d.raised)
    (hid : ex.id = ex'.id) : ex = ex' := by
  have nodup : (d.raised.map HostException.id).Nodup := filed.numbers ▸ List.nodup_range
  exact List.inj_on_of_nodup_map nodup h h' hid

/-- A step that tames no exception files nothing. -/
theorem quiet (filed : d.Filed steps) {y : Step code} (raised : w.raised = d.raised)
    (records : w.vault.records = d.vault.records) (endures : d.store.Endures w.store)
    (tamesNone : ∀ id, y.policyFor? id = none) : w.Filed (steps ++ [y]) := by
  have same (ex : HostException) : policyOf? (steps ++ [y]) ex = policyOf? steps ex := by
    rw [policyOf?_concat, tamesNone, Option.or_none]
  have record (ex : HostException) : w.vault.record? ex = d.vault.record? ex := by
    rw [Vault.record?, records, Vault.record?]
  refine ⟨by rw [records, raised, filed.size], ?_, ?_, ?_, ?_, ?_⟩
  · rw [raised]
    exact filed.numbers
  · rw [raised]
    exact fun ex hex e he => endures.holds (filed.held ex hex e he)
  · intro ex hlt
    rw [same, filed.unborn ex (raised ▸ hlt)]
  · intro ex hex hnone
    rw [record, filed.untamed ex (raised ▸ hex) (same ex ▸ hnone)]
  · intro ex hex p hp
    obtain ⟨made, x, hx, presents⟩ := filed.tamed ex (raised ▸ hex) p (same ex ▸ hp)
    exact ⟨made, x, (record ex).trans hx, presents.endures endures⟩

/-- A new exception gets the next number and has not been tamed. -/
theorem raise (filed : d.Filed steps) {name message : String} {fields : List (String × Value)}
    (held : ∀ e ∈ fields, d.store.Holds e.2) :
    (d.step (.raise name message fields)).Filed (steps ++ [.raise name message fields]) := by
  have same (ex : HostException) :
      policyOf? (steps ++ [.raise name message fields]) ex = policyOf? steps ex := by
    rw [policyOf?_concat]
    exact Option.or_none
  have record (ex : HostException) :
      (d.step (.raise name message fields)).vault.record? ex = d.vault.record? ex :=
    d.vault.record?_newException name message fields ex
  have cases {ex : HostException} (h : ex ∈ (d.step (.raise name message fields)).raised) :
      ex ∈ d.raised ∨ ex = ⟨d.vault.records.size, name, message, Table.ofList fields⟩ :=
    (List.mem_append.mp h).imp_right List.mem_singleton.mp
  -- nothing has been tamed under the number that is given out
  have unborn : policyOf? steps ⟨d.vault.records.size, name, message, Table.ofList fields⟩ = none :=
    filed.unborn _ filed.size.ge
  refine ⟨?_, ?_, ?_, ?_, ?_, ?_⟩
  · simp [Docket.step, Vault.newException, filed.size]
  · simp [Docket.step, Vault.newException, filed.numbers, filed.size, List.range_succ]
  · intro ex hex e he
    rcases cases hex with hold | rfl
    · exact filed.held ex hold e he
    · exact held e (Table.mem_of_mem_ofList he)
  · intro ex hlt
    rw [same]
    refine filed.unborn ex (Nat.le_of_succ_le ?_)
    simpa [Docket.step] using hlt
  · intro ex hex hnone
    rw [record]
    rcases cases hex with hold | rfl
    · exact filed.untamed ex hold (same ex ▸ hnone)
    · simp [Vault.record?]
  · intro ex hex p hp
    rw [same] at hp
    rcases cases hex with hold | rfl
    · obtain ⟨made, x, hx, presents⟩ := filed.tamed ex hold p hp
      exact ⟨made, x, (record ex).trans hx, presents⟩
    · rw [unborn] at hp
      cases hp

/-- The record of an exception shows what the policy allows under which it was tamed first. -/
theorem presents_tameHost (filed : d.Filed steps) (made : p.Made) (hex : ex ∈ d.raised) :
    ((policyOf? steps ex).getD p).Made ∧
      Presents (tameHost p d.vault ex).2.store ((policyOf? steps ex).getD p) ex
        (tameHost p d.vault ex).1 := by
  cases hp : policyOf? steps ex with
  | none =>
    exact ⟨made, Taming.presents_tameHost made (filed.untamed ex hex hp) (filed.held ex hex)⟩
  | some q =>
    obtain ⟨madeFirst, x, hx, presents⟩ := filed.tamed ex hex q hp
    rw [tameHost_of_record? hx]
    exact ⟨madeFirst, presents⟩

theorem tameHost (filed : d.Filed steps) (made : p.Made) (hex : ex ∈ d.raised) :
    (d.step (.tame p (.host ex))).Filed (steps ++ [.tame p (.host ex)]) := by
  have endures := endures_step d (.tame p (.host ex))
  have other {ex' : HostException} (hne : ex.id ≠ ex'.id) :
      policyOf? (steps ++ [.tame p (.host ex)]) ex' = policyOf? steps ex' := by
    rw [policyOf?_concat, Step.policyFor?, if_neg hne, Option.or_none]
  have self : policyOf? (steps ++ [.tame p (.host ex)]) ex =
      some ((policyOf? steps ex).getD p) := by
    rw [policyOf?_concat, Step.policyFor?, if_pos rfl]
    cases policyOf? steps ex <;> rfl
  refine ⟨?_, filed.numbers, ?_, ?_, ?_, ?_⟩
  · exact (size_records_tameHost p d.vault ex).trans filed.size
  · exact fun ex' hex' e he => endures.holds (filed.held ex' hex' e he)
  · intro ex' hlt
    have hlt : d.raised.length ≤ ex'.id := hlt
    rw [other (by have := filed.id_lt hex; omega), filed.unborn ex' hlt]
  · intro ex' hex' hnone
    -- the exception at hand has been tamed now, so it is another one
    have hne : ex.id ≠ ex'.id := by
      intro hid
      obtain rfl : ex = ex' := filed.eq_of_id_eq hex hex' hid
      rw [self] at hnone
      cases hnone
    rw [other hne] at hnone
    exact (record?_tameHost_of_ne p d.vault hne.symm).trans (filed.untamed ex' hex' hnone)
  · intro ex' hex' q hq
    by_cases hid : ex.id = ex'.id
    · obtain rfl : ex = ex' := filed.eq_of_id_eq hex hex' hid
      rw [self, Option.some.injEq] at hq
      subst hq
      obtain ⟨madeFirst, presents⟩ := filed.presents_tameHost made hex
      exact ⟨madeFirst, _, record?_tameHost_self p (filed.size ▸ filed.id_lt hex), presents⟩
    · rw [other hid] at hq
      obtain ⟨madeFirst, x, hx, presents⟩ := filed.tamed ex' hex' q hq
      exact ⟨madeFirst, x, (record?_tameHost_of_ne p d.vault (Ne.symm hid)).trans hx,
        presents.endures endures⟩

theorem step (filed : d.Filed steps) {y : Step code} (sound : d.Sound y) :
    (d.step y).Filed (steps ++ [y]) := by
  have endures := endures_step d y
  cases y with
  | raise name message fields => exact filed.raise sound
  | tame p fault =>
    by_cases hhost : ∃ ex, fault = .host ex
    · obtain ⟨ex, rfl⟩ := hhost
      exact filed.tameHost sound.1 sound.2
    · have kept := records_tame p d.vault fun ex he => hhost ⟨ex, he⟩
      refine filed.quiet rfl kept endures fun id => ?_
      cases fault with
      | host ex => exact absurd ⟨ex, rfl⟩ hhost
      | _ => rfl
  | act r x => exact filed.quiet rfl rfl endures fun _ => rfl
  | make e => exact filed.quiet rfl rfl endures fun _ => rfl

end Docket.Filed

theorem Docket.Leads.filed (leads : (start s).Leads steps d) : d.Filed steps := by
  induction leads with
  | refl => exact ⟨rfl, rfl, nofun, fun _ _ => rfl, nofun, nofun⟩
  | next _ sound ih => exact ih.step sound

/-- The name that a fault goes by. -/
def ownName : Fault → String
  | .host ex => ex.name
  | fault => fault.kind

def ownMessage (s : Store code) : Fault → String
  | .host ex => ex.message
  | fault => fault.message s

/-- Unless it was thrown, a fault is tamed into a record with its name and message. -/
theorem Docket.Filed.exists_isRecord (filed : d.Filed steps) (sound : d.Sound (.tame p fault))
    (hthrown : ∀ x, fault ≠ .thrown x) : ∃ rest,
      IsRecord (tame p d.vault fault).2.store (tame p d.vault fault).1
        (("name", .string (ownName fault)) ::
          ("message", .string (ownMessage d.store fault)) :: rest) := by
  cases fault with
  | thrown x => exact absurd rfl (hthrown x)
  | host ex =>
    obtain ⟨-, shown, record, -⟩ := filed.presents_tameHost sound.1 sound.2
    exact ⟨shown, record⟩
  | _ => exact ⟨_, isRecord_tame p d.vault nofun nofun⟩

/-- What comes out of taming is there, and no function but a stand-in. -/
theorem Docket.Filed.settled (filed : d.Filed steps) (sound : d.Sound (.tame p fault)) :
    (tame p d.vault fault).2.store.Holds (tame p d.vault fault).1 ∧
      isLive (tame p d.vault fault).2.store (tame p d.vault fault).1 = false := by
  by_cases hthrown : ∃ x, fault = .thrown x
  · obtain ⟨x, rfl⟩ := hthrown
    have shown : ShownAs (tameThrown d.store x).2 x (tameThrown d.store x).1 :=
      shownAs_tameThrown sound.2
    exact ⟨shown.holds, shown.idle⟩
  · obtain ⟨rest, record⟩ := filed.exists_isRecord sound fun x hx => hthrown ⟨x, hx⟩
    exact ⟨record.holds, record.idle⟩

/-- Let a fault be tamed into `x` at any time, under any policy that can be had, and let anything
happen after that. If `x` is thrown then, it is tamed into itself. If the fault is a host exception,
it is tamed into `x` again, under any policy. If `x` is a function, it is a stand-in. Unless the
fault was thrown, `x` is a frozen object, marked as tamed, with the name and message of the fault;
and if the fault is a host exception, `x` has no location, no reserved name, and no function but
stand-ins. -/
theorem taming_is_final {earlier later : List (Step code)}
    (reached : (Docket.start s).Leads earlier d) (sound : d.Sound (.tame p fault))
    (tamed : (tame p d.vault fault).1 = x)
    (goesOn : (d.step (.tame p fault)).Leads later w) :
    (∀ q, tame q w.vault (.thrown x) = (x, w.vault)) ∧
    (∀ ex, fault = .host ex → ∀ q, tame q w.vault (.host ex) = (x, w.vault)) ∧
    Powerless w.store x ∧
    ((∀ y, fault ≠ .thrown y) → ∃ id e, x = .object id ∧ w.store.entity? id = some e ∧
      e.nature = .object .guest true ∧ e.frozen = true ∧
      e.ownValue? "name" = some (.string (ownName fault)) ∧
      e.ownValue? "message" = some (.string (ownMessage d.store fault)) ∧
      ∀ ex, fault = .host ex → ∀ field slot, e.properties.find? field = some slot →
        isLocationField field = false ∧ Text.isReserved field = false ∧
          Powerless w.store slot.value) := by
  subst tamed
  have filed := reached.filed
  have endures := goesOn.endures
  obtain ⟨held, idle⟩ := filed.settled sound
  have heldLater := endures.holds held
  have idleLater := (isLive_eq_of_endures endures held).trans idle
  refine ⟨fun q => ?_, ?_, powerless_of_not_isLive heldLater idleLater, fun hthrown => ?_⟩
  · have hthrown := tameThrown_of_not_isLive idleLater
    simp only [tame]
    exact congrArg (fun y => (y.1, { w.vault with store := y.2 })) hthrown
  · rintro ex rfl q
    -- the record was filed when it was made, and what is filed stays
    have hlt : ex.id < d.vault.records.size := filed.size ▸ filed.id_lt sound.2
    exact tameHost_of_record? (goesOn.record? (record?_tameHost_self p hlt)) q
  · obtain ⟨rest, record⟩ := filed.exists_isRecord sound hthrown
    obtain ⟨id, e, hx, he, nature, frozen, -, values⟩ := (record.endures endures).exists_entity
    refine ⟨id, e, hx, he, nature, frozen, values _ List.mem_cons_self,
      values _ (List.mem_cons_of_mem _ List.mem_cons_self), ?_⟩
    rintro ex rfl field slot hslot
    obtain ⟨made, presents⟩ := filed.presents_tameHost sound.1 sound.2
    exact (presents.endures endures).discreet made hx he hslot

/-- An exception with a field named as the record's own, a plain field, a stack trace and a
function. -/
def hostError : HostException :=
  ⟨0, "HostError", "message", .ofList [("name", .string "inner"), ("code", .string "2"),
    ("stack", .string "at line"), ("callback", .function 0)]⟩

/-- The function is made and the exception is raised. -/
def raisingSteps : List (Step Unit) :=
  [.make ⟨.function ⟨some "callback", .simple, .host, 0, .native ()⟩, .empty, false⟩,
    .raise "HostError" "message" [("name", .string "inner"), ("code", .string "2"),
      ("stack", .string "at line"), ("callback", .function 0)]]

def docket : Docket Unit := raisingSteps.foldl Docket.step (.start {})

/-- A policy that asks for every field of the exception. -/
def codePolicy : Policy := .ofFields ["stack", "callback", "name", "code"]

/-- A write to the record, a function that is thrown, and the exception tamed again. -/
def laterSteps : List (Step Unit) :=
  [.act .empty (.access (.write (.object 2) "code" (.string "3"))),
    .tame .none (.thrown (.function 0)), .tame .none (.host hostError)]

def laterDocket : Docket Unit :=
  laterSteps.foldl Docket.step (docket.step (.tame codePolicy (.host hostError)))

theorem leads_docket : (Docket.start {}).Leads raisingSteps docket := by
  refine .cons trivial (.cons ?_ .refl)
  simp only [Docket.Sound, List.forall_mem_cons]
  exact ⟨trivial, trivial, trivial, ⟨_, rfl⟩, nofun⟩

theorem sound_tame_hostError : docket.Sound (.tame codePolicy (.host hostError)) :=
  ⟨.ofFields _, List.mem_singleton.mpr rfl⟩

theorem leads_laterDocket :
    (docket.step (.tame codePolicy (.host hostError))).Leads laterSteps laterDocket :=
  .cons trivial (.cons ⟨.none, _, rfl⟩ (.cons ⟨.none, List.mem_singleton.mpr rfl⟩ .refl))

/-- After the later steps the record is what it was, and the function is a powerless stand-in. -/
theorem taming_is_final_of_hostError :
    (tame codePolicy docket.vault (.host hostError)).1 = .object 2 ∧
    tame .none laterDocket.vault (.thrown (.object 2)) = (.object 2, laterDocket.vault) ∧
    tame .none laterDocket.vault (.host hostError) = (.object 2, laterDocket.vault) ∧
    (laterDocket.store.entity? 2).map (·.properties.entries) =
      some [("name", .plain (.string "HostError")), ("message", .plain (.string "message")),
        ("code", .plain (.string "2")), ("callback", .plain (.function 1))] ∧
    Powerless laterDocket.store (.function 1) := by
  have tamed : (tame codePolicy docket.vault (.host hostError)).1 = .object 2 := rfl
  obtain ⟨thrown, again, -, record⟩ :=
    taming_is_final leads_docket sound_tame_hostError tamed leads_laterDocket
  obtain ⟨id, e, hid, he, -, -, -, -, fields⟩ := record nofun
  cases hid
  refine ⟨tamed, thrown _, again hostError rfl _, rfl, ?_⟩
  cases he
  exact (fields hostError rfl "callback" (.plain (.function 1)) rfl).2.2

/-- Whatever was tamed before, a host exception is tamed into a record with its name, its message,
and those of its fields, in order, that the policy allows under which it was tamed first. -/
theorem first_policy_decides {earlier : List (Step code)}
    (reached : (Docket.start s).Leads earlier d) (sound : d.Sound (.tame p (.host ex))) :
    ∃ id e, (tame p d.vault (.host ex)).1 = .object id ∧
      (tame p d.vault (.host ex)).2.store.entity? id = some e ∧
      e.properties.keys =
        "name" :: "message" :: ex.fields.keys.filter ((policyOf? earlier ex).getD p).allows ∧
      e.ownValue? "name" = some (.string ex.name) ∧
      e.ownValue? "message" = some (.string ex.message) ∧
      ∀ field y, ((policyOf? earlier ex).getD p).allows field = true →
        ex.fields.find? field = some y → ∃ y', e.ownValue? field = some y' ∧
          ShownAs (tame p d.vault (.host ex)).2.store y y' := by
  obtain ⟨-, shown, record, fields⟩ := reached.filed.presents_tameHost sound.1 sound.2
  obtain ⟨id, e, hx, he, -, -, keys, values⟩ := record.exists_entity
  refine ⟨id, e, hx, he, ?_, values _ List.mem_cons_self,
    values _ (List.mem_cons_of_mem _ List.mem_cons_self), fun field y hallows hfield => ?_⟩
  · rw [keys, List.map_cons, List.map_cons, keys_of_showsField fields, Table.keys,
      List.filter_map]
    rfl
  · obtain ⟨y', hmem, shows⟩ := exists_shown fields hallows hfield
    exact ⟨y', values _ (List.mem_cons_of_mem _ (List.mem_cons_of_mem _ hmem)), shows⟩

/-- First tamed under the empty policy, then under one that allows more. -/
theorem first_policy_decides_of_stricter_policy :
    (Docket.start {}).Leads (raisingSteps ++ [.tame .none (.host hostError)])
      (docket.step (.tame .none (.host hostError))) ∧
    (docket.step (.tame .none (.host hostError))).Sound (.tame codePolicy (.host hostError)) ∧
    ∃ id e, (tame codePolicy (docket.step (.tame .none (.host hostError))).vault
        (.host hostError)).1 = .object id ∧
      (tame codePolicy (docket.step (.tame .none (.host hostError))).vault
        (.host hostError)).2.store.entity? id = some e ∧
      e.properties.keys = ["name", "message"] := by
  have raised : hostError ∈ docket.raised := List.mem_singleton.mpr rfl
  have reached := leads_docket.next (x := .tame .none (.host hostError)) ⟨.none, raised⟩
  have sound : (docket.step (.tame .none (.host hostError))).Sound
      (.tame codePolicy (.host hostError)) := ⟨.ofFields _, raised⟩
  obtain ⟨id, e, hx, he, keys, -⟩ := first_policy_decides reached sound
  exact ⟨reached, sound, id, e, hx, he, keys⟩

/-- First tamed under a policy with fields, then under the empty one, which is ignored. -/
theorem later_policy_is_ignored :
    (Docket.start {}).Leads (raisingSteps ++ [.tame codePolicy (.host hostError)])
      (docket.step (.tame codePolicy (.host hostError))) ∧
    (docket.step (.tame codePolicy (.host hostError))).Sound (.tame .none (.host hostError)) ∧
    (tame .none (docket.step (.tame codePolicy (.host hostError))).vault
      (.host hostError)).1 = .object 2 ∧
    ((tame .none (docket.step (.tame codePolicy (.host hostError))).vault
      (.host hostError)).2.store.entity? 2).map (·.properties.keys) =
        some ["name", "message", "code", "callback"] ∧
    "name" :: "message" :: hostError.fields.keys.filter Policy.none.allows = ["name", "message"] :=
  ⟨leads_docket.next sound_tame_hostError, ⟨.none, List.mem_singleton.mpr rfl⟩, rfl, rfl, rfl⟩

end Confinement.Taming
