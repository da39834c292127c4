import Confinement.Proofs.Access.PlainObject
import Confinement.Proofs.Access.WriteBack
import Confinement.Proofs.Module.Conduct
import Confinement.Script.Run

/-!
# Outer bindings over time

A module declares and assigns outer names, and takes snapshots of them that are looked at later. The
host's names are not its to change, whatever it tries. Any other name is declared by the first deed
that names it, for good, and has the value that was last assigned to it. A snapshot shows these
names in the order in which they came up, as they are when it is looked at.
-/
namespace Confinement

theorem eraseDups_concat (l : List String) (a : String) :
    (l ++ [a]).eraseDups = if a ∈ l then l.eraseDups else l.eraseDups ++ [a] := by
  rw [List.eraseDups_append]
  by_cases h : a ∈ l <;> simp [List.removeAll, List.eraseDups_cons, h]

namespace Deed

/-- The outer name that the deed is about. -/
def name? : Deed → Option String
  | .declare name | .assign name _ => some name
  | .emit _ | .reach _ => none

def value? : Deed → Option Value
  | .assign _ v => some v
  | .declare _ | .emit _ | .reach _ => none

/-- The names beside the host's that the deeds are about, each where it first comes up. -/
def outerNames (host : Table Value) (deeds : List Deed) : List String :=
  ((deeds.filterMap name?).filter (!host.contains ·)).eraseDups

/-- The value that the deeds have last assigned to a name. -/
def currentValue (deeds : List Deed) (name : String) : Value :=
  (deeds.reverse.findSome? fun d => if d.name? = some name then d.value? else none).getD .undefined

variable {host : Table Value} {deeds : List Deed} {d : Deed} {b : Bindings} {name : String}

theorem mem_outerNames :
    name ∈ outerNames host deeds ↔
      (∃ d ∈ deeds, d.name? = some name) ∧ host.contains name = false := by
  simp [outerNames, List.mem_eraseDups]

theorem outerNames_concat_of_none (h : d.name? = none) :
    outerNames host (deeds ++ [d]) = outerNames host deeds := by
  simp [outerNames, h]

theorem outerNames_concat_of_host (h : d.name? = some name) (hhost : host.contains name = true) :
    outerNames host (deeds ++ [d]) = outerNames host deeds := by
  simp [outerNames, h, hhost]

theorem outerNames_concat (h : d.name? = some name) (hhost : host.contains name = false) :
    outerNames host (deeds ++ [d]) =
      if name ∈ outerNames host deeds then outerNames host deeds
      else outerNames host deeds ++ [name] := by
  have hnames : ((deeds ++ [d]).filterMap name?).filter (!host.contains ·) =
      (deeds.filterMap name?).filter (!host.contains ·) ++ [name] := by
    simp [h, hhost]
  rw [outerNames, hnames, eraseDups_concat, outerNames]
  simp only [List.mem_eraseDups]

theorem currentValue_concat (deeds : List Deed) (d : Deed) (name : String) :
    currentValue (deeds ++ [d]) name =
      if d.name? = some name then d.value?.getD (currentValue deeds name)
      else currentValue deeds name := by
  rw [currentValue, List.reverse_append, List.findSome?_append, Option.getD_or]
  by_cases h : d.name? = some name
  · simp [h, currentValue]
  · simp [h, currentValue]

theorem currentValue_of_not_exists (h : ¬ ∃ d ∈ deeds, d.name? = some name) :
    currentValue deeds name = .undefined := by
  rw [currentValue, List.findSome?_eq_none_iff.mpr, Option.getD_none]
  intro d hd
  exact if_neg fun hname => h ⟨d, List.mem_reverse.mp hd, hname⟩

theorem rebind_of_none (h : d.name? = none) : rebind b d = b := by
  cases d with
  | emit op => rfl
  | reach line => rfl
  | declare name => cases h
  | assign name v => cases h

/-- The host's names are refused. -/
theorem rebind_of_host (h : d.name? = some name) (hhost : b.host.contains name = true) :
    rebind b d = b := by
  cases d with
  | emit op => cases h
  | reach line => cases h
  | declare name' =>
    cases h
    simp [rebind, Bindings.init, Bindings.state, hhost]
  | assign name' v =>
    cases h
    simp [rebind, Bindings.write, hhost]

/-- Any other name gets the value assigned, or keeps the one it has. -/
theorem rebind_of_guest (h : d.name? = some name) (hhost : b.host.contains name = false) :
    rebind b d = ⟨b.host,
      b.declared.insert name (d.value?.getD ((b.declared.find? name).getD .undefined))⟩ := by
  cases d with
  | emit op => cases h
  | reach line => cases h
  | assign name' v =>
    cases h
    simp [rebind, Bindings.write, hhost, value?]
  | declare name' =>
    cases h
    cases hfind : b.declared.find? name with
    | none =>
      have hstate : b.state name = .undeclared := by
        rw [Bindings.state, hhost, Table.contains, hfind]
        rfl
      simp [rebind, Bindings.init, hstate, value?]
    | some v =>
      have hstate : b.state name = .declared := by
        rw [Bindings.state, hhost, Table.contains, hfind]
        rfl
      simp [rebind, Bindings.init, hstate, value?, Table.insert_eq_self hfind]

end Deed

/-- The bindings of a module that started with those of the host and has done these deeds. -/
structure Bindings.After (host : Table Value) (deeds : List Deed) (b : Bindings) : Prop where
  owned : b.host = host
  names : b.declared.keys = Deed.outerNames host deeds
  values : ∀ name ∈ b.declared.keys, b.declared.find? name = some (Deed.currentValue deeds name)

namespace Bindings.After

variable {host : Table Value} {deeds : List Deed} {b : Bindings} {name : String}

theorem none (host : Table Value) : After host [] { host } := ⟨rfl, rfl, nofun⟩

theorem find?_eq_none (h : After host deeds b) (hname : name ∉ Deed.outerNames host deeds) :
    b.declared.find? name = .none := by
  rw [← h.names, Table.mem_keys_iff] at hname
  exact Option.not_isSome_iff_eq_none.mp hname

/-- A name that is not declared has not been assigned. -/
theorem getD_find? (h : After host deeds b) (hhost : host.contains name = false) :
    (b.declared.find? name).getD .undefined = Deed.currentValue deeds name := by
  by_cases hname : name ∈ Deed.outerNames host deeds
  · rw [h.values name (h.names ▸ hname), Option.getD_some]
  · rw [h.find?_eq_none hname, Option.getD_none, Deed.currentValue_of_not_exists]
    exact fun hexists => hname (Deed.mem_outerNames.mpr ⟨hexists, hhost⟩)

/-- A deed that changes nothing and is about no declared name. -/
theorem idle (h : After host deeds b) {d : Deed} (hrebind : Deed.rebind b d = b)
    (hnames : Deed.outerNames host (deeds ++ [d]) = Deed.outerNames host deeds)
    (hother : ∀ name ∈ Deed.outerNames host deeds, d.name? ≠ some name) :
    After host (deeds ++ [d]) (Deed.rebind b d) := by
  rw [hrebind]
  refine ⟨h.owned, by rw [h.names, hnames], fun name hname => ?_⟩
  rw [Deed.currentValue_concat, if_neg (hother name (h.names ▸ hname)), h.values name hname]

theorem rebind_of_guest (h : After host deeds b) {d : Deed} (hd : d.name? = some name)
    (hhost : host.contains name = false) : After host (deeds ++ [d]) (Deed.rebind b d) := by
  rw [Deed.rebind_of_guest hd (h.owned ▸ hhost), h.getD_find? hhost]
  have names : (b.declared.insert name (d.value?.getD (Deed.currentValue deeds name))).keys =
      Deed.outerNames host (deeds ++ [d]) := by
    rw [Table.keys_insert, h.names, Deed.outerNames_concat hd hhost]
  refine ⟨h.owned, names, fun name' hname' => ?_⟩
  rw [Table.find?_insert, Deed.currentValue_concat, hd]
  by_cases hsame : name' = name
  · subst hsame
    rw [if_pos rfl, if_pos rfl]
  · -- any other name that is declared now was declared before
    rw [if_neg hsame, if_neg fun heq => hsame (Option.some.inj heq).symm]
    refine h.values name' ?_
    rw [Table.keys_insert] at hname'
    split at hname'
    · exact hname'
    · simpa [hsame] using hname'

theorem rebind (h : After host deeds b) (d : Deed) :
    After host (deeds ++ [d]) (Deed.rebind b d) := by
  cases hd : d.name? with
  | none =>
    exact h.idle (Deed.rebind_of_none hd) (Deed.outerNames_concat_of_none hd) (by simp [hd])
  | some name =>
    cases hhost : host.contains name with
    | false => exact h.rebind_of_guest hd hhost
    | true =>
      refine h.idle (Deed.rebind_of_host hd (h.owned ▸ hhost))
        (Deed.outerNames_concat_of_host hd hhost) fun name' hname' heq => ?_
      cases hd.symm.trans heq
      rw [(Deed.mem_outerNames.mp hname').2] at hhost
      cases hhost

theorem foldl_rebind (host : Table Value) (deeds : List Deed) :
    After host deeds (deeds.foldl Deed.rebind { host }) := by
  induction deeds using List.reverseRecOn with
  | nil => exact .none host
  | append_singleton deeds d ih =>
    rw [List.foldl_append]
    exact ih.rebind d

theorem find?_declared (h : After host deeds b) (name : String) : b.declared.find? name =
    if name ∈ Deed.outerNames host deeds then some (Deed.currentValue deeds name) else .none := by
  by_cases hname : name ∈ Deed.outerNames host deeds
  · rw [if_pos hname, h.values name (h.names ▸ hname)]
  · rw [if_neg hname, h.find?_eq_none hname]

theorem contains_eq (h : After host deeds b) :
    b.declared.contains name = decide (name ∈ Deed.outerNames host deeds) := by
  rw [← h.names, Table.contains, Bool.eq_iff_iff, decide_eq_true_iff, Table.mem_keys_iff]

theorem state_of_host (h : After host deeds b) (hhost : host.contains name = true) :
    b.state name = .hostOwned := by
  rw [state, h.owned, if_pos hhost]

theorem state_of_guest (h : After host deeds b) (hhost : host.contains name = false) :
    b.state name = if name ∈ Deed.outerNames host deeds then .declared else .undeclared := by
  simp [state, h.owned, hhost, h.contains_eq]

theorem read_of_host (h : After host deeds b) {v : Value} (hv : host.find? name = some v) :
    b.read name = .ok v := by
  rw [read, h.owned, hv, Option.some_or]

theorem read_of_guest (h : After host deeds b) (hhost : host.find? name = .none) :
    b.read name = if name ∈ Deed.outerNames host deeds then .ok (Deed.currentValue deeds name)
      else .error (.unboundName name) := by
  rw [read, h.owned, hhost, Option.none_or, h.find?_declared]
  by_cases hname : name ∈ Deed.outerNames host deeds
  · rw [if_pos hname, if_pos hname]
  · rw [if_neg hname, if_neg hname]

end Bindings.After

/-- The snapshot lists exactly these names, in this order, and each of them with its value. -/
structure Snapshot.Shows (w : Snapshot) (scopes : Array Bindings) (names : List String)
    (value : String → Value) : Prop where
  names_eq : w.names scopes = names
  get?_eq : ∀ name, w.get? scopes name = if name ∈ names then some (value name) else none
  contains_eq : ∀ name, w.contains scopes name = decide (name ∈ names)
  size_eq : w.size scopes = names.length
  isEmpty_eq : w.isEmpty scopes = names.isEmpty

theorem Bindings.After.shows {host : Table Value} {deeds : List Deed} {scopes : Array Bindings}
    {w : Snapshot} (h : After host deeds ((scopes[w.scope]?).getD {})) :
    w.Shows scopes (Deed.outerNames host deeds) (Deed.currentValue deeds) where
  names_eq := h.names
  get?_eq := h.find?_declared
  contains_eq _ := h.contains_eq
  size_eq := by
    rw [← h.names, Table.keys, List.length_map]
    rfl
  isEmpty_eq := by
    rw [← h.names, Table.keys, List.isEmpty_map]
    rfl

theorem Frame.withBindings_bindings {code σ : Type} {fr : Frame code σ} (placed : fr.Placed) :
    fr.withBindings fr.bindings = fr := by
  have hlt : fr.context.scope < fr.world.scopes.size := placed
  have hscopes : fr.world.scopes.setIfInBounds fr.context.scope fr.bindings = fr.world.scopes := by
    rw [bindings, Array.getElem?_eq_getElem hlt, Option.getD_some, Array.setIfInBounds_def,
      dif_pos hlt, Array.set_getElem_self]
  rw [withBindings, hscopes]

namespace Script

/-- What a script does about the outer bindings of the module that it is. -/
inductive OuterStep where
  | init (name : String)
  | write (name : String) (v : Value)
  | snapshot (id : String)

namespace OuterStep

def op : OuterStep → ContextOp
  | .init name => .initOuter name
  | .write name v => .writeOuter name (.literal v)
  | .snapshot id => .snapshot id

def deed? : OuterStep → Option Deed
  | .init name => some (.declare name)
  | .write name v => some (.assign name v)
  | .snapshot _ => none

/-- The deeds among the steps. -/
def deeds (steps : List OuterStep) : List Deed := steps.filterMap deed?

end OuterStep

theorem mem_outerNames_append {host : Table Value} {steps : List OuterStep} {name : String}
    (h : name ∈ Deed.outerNames host (OuterStep.deeds steps)) (later : List OuterStep) :
    name ∈ Deed.outerNames host (OuterStep.deeds (steps ++ later)) := by
  obtain ⟨⟨d, hd, hname⟩, hhost⟩ := Deed.mem_outerNames.mp h
  refine Deed.mem_outerNames.mpr ⟨⟨d, ?_, hname⟩, hhost⟩
  rw [OuterStep.deeds, List.filterMap_append]
  exact List.mem_append_left _ hd

/-- The frame that the steps leave, be they done or refused. -/
def play (l : Locals) (fr : ScriptFrame) (steps : List OuterStep) : ScriptFrame :=
  steps.foldl (fun fr x => (x.op.perform l fr).2) fr

variable {l : Locals} {fr fr' : ScriptFrame} {host : Table Value} {steps : List OuterStep}

theorem play_concat (l : Locals) (fr : ScriptFrame) (steps : List OuterStep) (x : OuterStep) :
    play l fr (steps ++ [x]) = (x.op.perform l (play l fr steps)).2 := by
  simp [play]

/-- What the bindings refuse leaves the frame as it is. -/
theorem rebind_of_error {f : Bindings → Except Fault Unit × Bindings} {fault : Fault}
    (placed : fr.Placed) (h : f fr.bindings = (.error fault, fr.bindings)) :
    rebind f fr = (.error fault, fr) := by
  have done : rebind f fr =
      ((f fr.bindings).1.map fun _ => .nothing, fr.withBindings (f fr.bindings).2) := rfl
  rw [done, h, Frame.withBindings_bindings placed]
  rfl

/-- A snapshot changes nothing of the module's own. -/
theorem aside_snapshot (l : Locals) (fr : ScriptFrame) (id : String) :
    fr.Aside (ContextOp.perform l (.snapshot id) fr).2 := ⟨rfl, rfl, rfl, rfl, .of_eq rfl⟩

theorem Follows.outerStep {deeds : List Deed} (h : Follows fr deeds fr') (l : Locals)
    (x : OuterStep) : Follows fr (deeds ++ x.deed?.toList) (x.op.perform l fr').2 := by
  cases x with
  | init name => exact h.deed (.declare name)
  | write name v => exact h.deed (.assign name v)
  | snapshot id =>
    rw [OuterStep.deed?, Option.toList_none, List.append_nil]
    exact h.aside (aside_snapshot l fr' id)

theorem follows_play (l : Locals) (placed : fr.Placed) (steps : List OuterStep) :
    Follows fr (OuterStep.deeds steps) (play l fr steps) := by
  induction steps using List.reverseRecOn with
  | nil => exact .refl placed
  | append_singleton steps x ih =>
    have deeds : OuterStep.deeds (steps ++ [x]) = OuterStep.deeds steps ++ x.deed?.toList := by
      rw [OuterStep.deeds, List.filterMap_append]
      cases h : x.deed? <;> simp [h, OuterStep.deeds]
    rw [deeds, play_concat]
    exact Follows.outerStep ih l x

theorem after_play (l : Locals)
    (fresh : fr.world.scopes[fr.context.scope]? = some { host }) (steps : List OuterStep) :
    Bindings.After host (OuterStep.deeds steps) (play l fr steps).bindings := by
  have placed : fr.Placed := (Array.getElem?_eq_some_iff.mp fresh).1
  have start : fr.bindings = { host } := by rw [Frame.bindings, fresh, Option.getD_some]
  rw [(follows_play l placed steps).bindings_eq, start]
  exact .foldl_rebind host _

theorem find?_snapshots_snapshot (l : Locals) (fr : ScriptFrame) (id id' : String) :
    (ContextOp.perform l (.snapshot id') fr).2.world.state.snapshots.find? id =
      if id = id' then some fr.snapshot else fr.world.state.snapshots.find? id :=
  Table.find?_insert fr.world.state.snapshots id' id fr.snapshot

theorem snapshot_play (l : Locals) (placed : fr.Placed) (steps : List OuterStep) :
    (play l fr steps).snapshot = fr.snapshot :=
  congrArg Snapshot.mk (follows_play l placed steps).scope

/-- What was taken as a snapshot is kept under its name, whatever is done later. -/
theorem find?_snapshots_play (l : Locals) (placed : fr.Placed) {id : String}
    (h : OuterStep.snapshot id ∈ steps) :
    (play l fr steps).world.state.snapshots.find? id = some fr.snapshot := by
  induction steps using List.reverseRecOn with
  | nil => cases h
  | append_singleton steps x ih =>
    have before := (List.mem_append.mp h).imp ih fun h => (List.mem_singleton.mp h).symm
    rw [play_concat]
    cases x with
    | init name => exact before.resolve_right nofun
    | write name v => exact before.resolve_right nofun
    | snapshot id' =>
      refine (find?_snapshots_snapshot l (play l fr steps) id id').trans ?_
      by_cases hid : id = id'
      · rw [if_pos hid, snapshot_play l placed steps]
      · rw [if_neg hid]
        exact before.resolve_right fun heq => hid (OuterStep.snapshot.inj heq).symm

theorem shows_snapshot_play (l : Locals)
    (fresh : fr.world.scopes[fr.context.scope]? = some { host }) (steps later : List OuterStep) :
    (play l fr steps).snapshot.Shows (play l fr (steps ++ later)).world.scopes
      (Deed.outerNames host (OuterStep.deeds (steps ++ later)))
      (Deed.currentValue (OuterStep.deeds (steps ++ later))) := by
  have placed : fr.Placed := (Array.getElem?_eq_some_iff.mp fresh).1
  have same : (play l fr steps).snapshot = (play l fr (steps ++ later)).snapshot := by
    rw [snapshot_play l placed, snapshot_play l placed]
  rw [same]
  exact (after_play l fresh (steps ++ later)).shows

/-- A look through a snapshot reports the names that it shows, with their values. -/
theorem perform_look {id : String} {w : Snapshot} {names : List String} {value : String → Value}
    (kept : fr.world.state.snapshots.find? id = some w)
    (shows : w.Shows fr.world.scopes names value) (l : Locals) :
    ContextOp.perform l (.look id) fr =
      (.ok { answer := .snapshot (some ⟨names.length, names.isEmpty,
        names.map fun name => (name, shownIn fr.store (value name), true)⟩) }, fr) := by
  have entries : (snapshotIn fr.store fr.world.scopes w).entries =
      names.map fun name => (name, shownIn fr.store (value name), true) := by
    rw [snapshotIn, shows.names_eq]
    refine List.map_congr_left fun name hname => ?_
    rw [shows.get?_eq, shows.contains_eq, if_pos hname, decide_eq_true hname, Option.getD_some]
  have report : snapshotIn fr.store fr.world.scopes w = ⟨names.length, names.isEmpty,
      names.map fun name => (name, shownIn fr.store (value name), true)⟩ := by
    rw [← entries, ← shows.size_eq, ← shows.isEmpty_eq]
    rfl
  have watched : (fr.world.state.snapshots.find? id).map (snapshotIn fr.store fr.world.scopes) =
      some (snapshotIn fr.store fr.world.scopes w) := by rw [kept, Option.map_some]
  rw [← report, ← watched]
  rfl

/-- Let a module start with the bindings of the host, and declare, assign and take snapshots in any
order. A name of the host stays the host's and has its value; to declare or assign it is refused,
and changes nothing. Any other name is declared once it comes up, and stays so whatever happens
later; it can be read exactly if it is declared, and has the value assigned last, or `undefined`.
A snapshot taken at any point shows, whenever it is looked at later, the names declared by then, in
the order in which they first came up, with the values that they have by then; and a script that
kept the snapshot under a name is told just that. -/
theorem outer_bindings_over_runs (l : Locals)
    (fresh : fr.world.scopes[fr.context.scope]? = some { host }) (steps : List OuterStep) :
    (∀ name v, host.find? name = some v →
      (play l fr steps).bindings.state name = .hostOwned ∧
      (play l fr steps).bindings.read name = .ok v ∧
      ContextOp.perform l (.initOuter name) (play l fr steps) =
        (.error (.immutableBinding name), play l fr steps) ∧
      ∀ e, ContextOp.perform l (.writeOuter name e) (play l fr steps) =
        (.error (.immutableBinding name), play l fr steps)) ∧
    (∀ name, host.find? name = none →
      ((play l fr steps).bindings.state name =
        if name ∈ Deed.outerNames host (OuterStep.deeds steps) then .declared else .undeclared) ∧
      ((play l fr steps).bindings.state name = .declared → ∀ later,
        (play l fr (steps ++ later)).bindings.state name = .declared) ∧
      (play l fr steps).bindings.read name =
        if name ∈ Deed.outerNames host (OuterStep.deeds steps) then
          .ok (Deed.currentValue (OuterStep.deeds steps) name)
        else .error (.unboundName name)) ∧
    (∀ later, (play l fr steps).snapshot.Shows (play l fr (steps ++ later)).world.scopes
      (Deed.outerNames host (OuterStep.deeds (steps ++ later)))
      (Deed.currentValue (OuterStep.deeds (steps ++ later)))) ∧
    ∀ id, OuterStep.snapshot id ∈ steps →
      ContextOp.perform l (.look id) (play l fr steps) =
        (.ok { answer := .snapshot (some
          ⟨(Deed.outerNames host (OuterStep.deeds steps)).length,
            (Deed.outerNames host (OuterStep.deeds steps)).isEmpty,
            (Deed.outerNames host (OuterStep.deeds steps)).map fun name =>
              (name, shownIn (play l fr steps).store
                (Deed.currentValue (OuterStep.deeds steps) name), true)⟩) }, play l fr steps) := by
  have placed : fr.Placed := (Array.getElem?_eq_some_iff.mp fresh).1
  have after := after_play l fresh steps
  have placed' : (play l fr steps).Placed := (follows_play l placed steps).placed
  refine ⟨fun name v hv => ?_, fun name hnone => ?_, shows_snapshot_play l fresh steps,
    fun id hid => ?_⟩
  · have hhost : host.contains name = true := by rw [Table.contains, hv, Option.isSome_some]
    have hstate := after.state_of_host hhost
    refine ⟨hstate, after.read_of_host hv, ?_, fun e => ?_⟩
    · exact rebind_of_error (f := (·.init name)) placed' (by simp only [Bindings.init, hstate])
    · exact rebind_of_error (f := (·.write name (eval l (play l fr steps).world.state e))) placed'
        (by rw [Bindings.write, after.owned, if_pos hhost])
  · have hhost : host.contains name = false := by rw [Table.contains, hnone, Option.isSome_none]
    refine ⟨after.state_of_guest hhost, fun hstate later => ?_, after.read_of_guest hnone⟩
    rw [after.state_of_guest hhost] at hstate
    have hname : name ∈ Deed.outerNames host (OuterStep.deeds steps) := by
      by_contra hname
      rw [if_neg hname] at hstate
      cases hstate
    rw [(after_play l fresh (steps ++ later)).state_of_guest hhost, if_pos]
    exact mem_outerNames_append hname later
  · have kept : (play l fr steps).world.state.snapshots.find? id =
        some (play l fr steps).snapshot := by
      rw [find?_snapshots_play l placed hid, snapshot_play l placed]
    exact perform_look kept after.shows l

/-- A module in a scope with one binding of the host's. -/
def versioned : ScriptFrame :=
  Loader.fresh
    { registry := .empty, hostBindings := .ofList [("VERSION", .string "1.0")],
      report := fun _ _ _ w => w }
    "main" { state := {} }

def firstEdits : List OuterStep := [.snapshot "early", .write "title" (.string "Draft")]

/-- A declaration, a write to a name of the host's, a second declaration, and a second write. -/
def laterEdits : List OuterStep :=
  [.init "author", .write "VERSION" (.string "2.0"), .init "title",
    .write "title" (.string "Final")]

/-- A snapshot taken before the later steps shows what they declared and wrote. -/
theorem outer_bindings_over_runs_of_versioned :
    (play {} versioned (firstEdits ++ laterEdits)).bindings.read "VERSION" = .ok (.string "1.0") ∧
    (play {} versioned (firstEdits ++ laterEdits)).bindings.read "title" =
      .ok (.string "Final") ∧
    (play {} versioned (firstEdits ++ laterEdits)).bindings.read "author" = .ok .undefined ∧
    (play {} versioned (firstEdits ++ laterEdits)).bindings.read "date" =
      .error (.unboundName "date") ∧
    (play {} versioned firstEdits).snapshot.names
      (play {} versioned (firstEdits ++ laterEdits)).world.scopes = ["title", "author"] ∧
    (play {} versioned firstEdits).snapshot.get?
      (play {} versioned (firstEdits ++ laterEdits)).world.scopes "title" =
        some (.string "Final") ∧
    (play {} versioned firstEdits).snapshot.get?
      (play {} versioned (firstEdits ++ laterEdits)).world.scopes "VERSION" = none ∧
    ContextOp.perform {} (.look "early") (play {} versioned (firstEdits ++ laterEdits)) =
      (.ok { answer := .snapshot (some ⟨2, false,
        [("title", shownIn (play {} versioned (firstEdits ++ laterEdits)).store
            (.string "Final"), true),
          ("author", shownIn (play {} versioned (firstEdits ++ laterEdits)).store
            .undefined, true)]⟩) },
        play {} versioned (firstEdits ++ laterEdits)) := by
  have fresh : versioned.world.scopes[versioned.context.scope]? =
      some { host := .ofList [("VERSION", .string "1.0")] } := rfl
  obtain ⟨hosts, guests, -, looks⟩ :=
    outer_bindings_over_runs {} fresh (firstEdits ++ laterEdits)
  have shows := (outer_bindings_over_runs {} fresh firstEdits).2.2.1 laterEdits
  exact ⟨(hosts "VERSION" _ rfl).2.1, (guests "title" rfl).2.2, (guests "author" rfl).2.2,
    (guests "date" rfl).2.2, shows.names_eq, shows.get?_eq "title", shows.get?_eq "VERSION",
    looks "early" List.mem_cons_self⟩

end Script

end Confinement
