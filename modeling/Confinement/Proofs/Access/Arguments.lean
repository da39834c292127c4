import Confinement.Proofs.Access.Display

/-!
# Arguments objects

The object that shows a list of arguments to a guest has one member for each of them, named by its
place in decimal digits, and the length as a member that is not listed. No two of these names are
the same and none is reserved, so the object is a display: a guest sees the arguments as they are,
whatever the registry has to say about the class, and no guest ever changes the object.
-/
namespace Confinement

theorem toList_toString (i : Nat) : (toString i).toList = Nat.toDigits 10 i := by
  rw [Nat.toString_eq_repr, Nat.toList_repr]

/-- Digits can be read back, so no two places have one name. -/
theorem eq_of_toString_eq {i j : Nat} (h : toString i = toString j) : i = j := by
  have hdigits : Nat.toDigits 10 i = Nat.toDigits 10 j := by
    rw [← toList_toString, h, toList_toString]
  have hread (n : Nat) : Nat.ofDigitChars 10 (Nat.toDigits 10 n) 0 = n :=
    Nat.ofDigitChars_toDigits (by decide) (by decide)
  rw [← hread i, hdigits, hread]

theorem isDigit_of_mem_toString {i : Nat} {c : Char} (h : c ∈ (toString i).toList) :
    c.isDigit = true := by
  rw [toList_toString] at h
  exact Nat.isDigit_of_mem_toDigits (by decide) (by decide) h

theorem toString_ne_of_mem {name : String} {c : Char} (hc : c ∈ name.toList)
    (hdigit : c.isDigit = false) (i : Nat) : toString i ≠ name := by
  rintro rfl
  rw [isDigit_of_mem_toString hc] at hdigit
  cases hdigit

theorem Text.isReserved_eq_false {name : String} (h : '_' ∉ name.toList) :
    Text.isReserved name = false := by
  unfold Text.isReserved
  split
  · rename_i rest hreverse
    refine absurd ?_ h
    rw [← List.mem_reverse, hreverse]
    exact List.mem_cons_self
  · rfl

theorem isReserved_toString (i : Nat) : Text.isReserved (toString i) = false := by
  refine Text.isReserved_eq_false ?_
  rw [toList_toString]
  exact Nat.underscore_not_in_toDigits

namespace Access.Displays

variable {code : Type} {r : Registry} {s t : Store code} {id : EntityId} {xs : List Exhibit}
  {name : String}

/-- The object is what it resolves to, and it is frozen. -/
theorem isImmutable_of_admits (h : Displays s id xs) {c : Capability} {j : EntityId}
    {e : Entity code} (admits : Admits r s (.object id) name c j e) :
    e.isImmutable name = true := by
  have resolves := admits.resolves
  rw [Store.resolve_of_view?_eq_none h.view?_eq_none] at resolves
  obtain rfl : id = j := Option.some.inj resolves
  obtain ⟨cls, members, grants, held, -⟩ := h
  obtain rfl := Option.some.inj (held.symm.trans admits.held)
  rfl

theorem write_ne_ok (h : Displays s id xs) (x : Value) :
    (write r s (.object id) name x).1 ≠ .ok () := by
  intro hwrite
  obtain ⟨j, e, admits, hopen, -⟩ := write_eq_ok_iff.mp (Prod.ext hwrite rfl)
  rw [h.isImmutable_of_admits admits] at hopen
  cases hopen

/-- No write succeeds, so none has an effect. -/
theorem snd_write (h : Displays s id xs) (x : Value) : (write r s (.object id) name x).2 = s := by
  cases hwrite : (write r s (.object id) name x).1 with
  | error fault => exact write_of_error (Prod.ext hwrite rfl)
  | ok u => exact absurd hwrite (h.write_ne_ok x)

/-- A removal succeeds only where there is nothing to remove. -/
theorem eq_of_remove (h : Displays s id xs) {any : Bool}
    (hremove : remove r s (.object id) name = (.ok any, t)) : any = false ∧ t = s := by
  obtain ⟨j, e, admits, ⟨hany, ht, -⟩ | ⟨-, -, -, hopen⟩⟩ := remove_eq_ok_iff.mp hremove
  · exact ⟨hany, ht⟩
  · rw [h.isImmutable_of_admits admits] at hopen
    cases hopen

end Access.Displays

namespace Arguments

open Access

variable {code : Type} {r : Registry} {s : Store code} {id : EntityId} {args : List Value}

/-- An argument with its place. -/
def placed (x : Value × Nat) : Exhibit :=
  ⟨toString x.2, .pinned x.1, .ofList [.read, .enumerate]⟩

def lengthShown (args : List Value) : Exhibit :=
  ⟨"length", .hidden (.int args.length), .ofList [.read]⟩

def exhibits (args : List Value) : List Exhibit := args.zipIdx.map placed ++ [lengthShown args]

theorem indexed_eq (h : HostObject) (i : Nat) (args : List Value) :
    indexed h i args = ((args.zipIdx i).map placed).foldl HostObject.exhibit h := by
  induction args generalizing h i with
  | nil => rfl
  | cons v rest ih =>
    rw [indexed, ih, List.zipIdx_cons, List.map_cons, List.foldl_cons]
    rfl

/-- The decimal forms of the places, in order. -/
def places (n : Nat) : List String := (List.range n).map toString

theorem name_placed (args : List Value) :
    (args.zipIdx.map placed).map Exhibit.name = places args.length := by
  have hsnd : args.zipIdx.map Prod.snd = List.range args.length := by
    rw [List.zipIdx_map_snd, List.range_eq_range']
  rw [places, ← hsnd, List.map_map, List.map_map]
  rfl

theorem name_exhibits (args : List Value) :
    (exhibits args).map Exhibit.name = places args.length ++ ["length"] := by
  rw [exhibits, List.map_append, name_placed]
  rfl

theorem length_notMem_places (n : Nat) : "length" ∉ places n := by
  intro h
  obtain ⟨i, -, hi⟩ := List.mem_map.mp h
  exact toString_ne_of_mem (c := 'l') (by decide) (by decide) i hi

theorem nodup_names (args : List Value) : ((exhibits args).map Exhibit.name).Nodup := by
  have hplaces : (places args.length).Nodup :=
    List.nodup_range.map fun i j h => eq_of_toString_eq h
  rw [name_exhibits, ← List.concat_eq_append]
  exact hplaces.concat (length_notMem_places _)

theorem isReserved_of_mem_exhibits {x : Exhibit} (h : x ∈ exhibits args) :
    Text.isReserved x.name = false := by
  rcases List.mem_append.mp h with hplaced | hlength
  · obtain ⟨v, -, rfl⟩ := List.mem_map.mp hplaced
    exact isReserved_toString v.2
  · obtain rfl := List.mem_singleton.mp hlength
    have free : Text.isReserved "length" = false := by decide
    exact free

theorem toObject_eq (args : List Value) (s : Store code) :
    toObject args s = (HostObject.display "Arguments" (exhibits args)).build s := by
  rw [toObject, HostObject.display, exhibits, List.foldl_append, ← indexed_eq]
  rfl

theorem displays_toObject (args : List Value) (s : Store code) :
    Displays (toObject args s).2 s.size (exhibits args) := by
  rw [toObject_eq]
  exact displays_build "Arguments" (nodup_names args) s

section Shown

variable (shown : Displays s id (exhibits args))

include shown

/-- No other name has a value, be it granted or not. -/
theorem eq_missing_of_read {name : String} (hlength : name ≠ "length")
    (hplaces : ∀ i < args.length, name ≠ toString i) {y : Value}
    (hread : read r s (.object id) name = .ok y) : y = .missing := by
  refine shown.eq_missing_of_read ?_ hread
  rw [name_exhibits, List.mem_append, List.mem_singleton]
  rintro (h | h)
  · obtain ⟨i, hi, rfl⟩ := List.mem_map.mp h
    exact hplaces i (List.mem_range.mp hi) rfl
  · exact hlength h

variable (ungranted : ∀ m, r.granted? (.ofInstance id) m = none)

include ungranted

theorem read_place {i : Nat} {v : Value} (hv : args[i]? = some v) :
    read r s (.object id) (toString i) = .ok v := by
  have hmem : placed (v, i) ∈ exhibits args :=
    List.mem_append_left _ (List.mem_map_of_mem (List.mk_mem_zipIdx_iff_getElem?.mpr hv))
  exact shown.read_of_mem (x := placed (v, i)) ungranted hmem
    (isReserved_of_mem_exhibits hmem) rfl

theorem read_length : read r s (.object id) "length" = .ok (.int args.length) := by
  have hmem : lengthShown args ∈ exhibits args := List.mem_append_right _ List.mem_cons_self
  exact shown.read_of_mem (x := lengthShown args) ungranted hmem
    (isReserved_of_mem_exhibits hmem) rfl

theorem keys_eq_places : keys r s (.object id) = .ok (places args.length) := by
  have listed : (exhibits args).filter (fun x => x.slot.enumerable && x.caps.contains .enumerate) =
      args.zipIdx.map placed := by
    have all : (args.zipIdx.map placed).filter
        (fun x => x.slot.enumerable && x.caps.contains .enumerate) = args.zipIdx.map placed := by
      refine List.filter_eq_self.mpr fun x hx => ?_
      obtain ⟨v, -, rfl⟩ := List.mem_map.mp hx
      rfl
    rw [exhibits, List.filter_append, all]
    exact List.append_nil _
  rw [shown.keys_eq ungranted fun x hx => isReserved_of_mem_exhibits hx, listed, name_placed]

end Shown

/-- Let a list of arguments be shown as an object, and let guests do what they like under any
registries. The object stays as it is. Under every registry that has no grant on the object itself,
the decimal form of each place reads as the argument there, `length` reads as their number, the
places are listed in order, and no other name has a value. No write to the object succeeds under any
registry at all, and no removal removes anything. -/
theorem arguments_are_shown_for_good (args : List Value) (s : Store code)
    (steps : List (Registry × Guardian.Step)) :
    ∃ e later, later = Guardian.runEach (toObject args s).2 steps ∧
      (toObject args s).1 = .object s.size ∧ (toObject args s).2.entity? s.size = some e ∧
      later.entity? s.size = some e ∧
      (∀ r : Registry, (∀ m, r.granted? (.ofInstance s.size) m = none) →
        (∀ (i : Nat) v, args[i]? = some v → read r later (.object s.size) (toString i) = .ok v) ∧
        read r later (.object s.size) "length" = .ok (.int args.length) ∧
        keys r later (.object s.size) = .ok ((List.range args.length).map toString)) ∧
      (∀ r name, name ≠ "length" → (∀ i < args.length, name ≠ toString i) →
        ∀ y, read r later (.object s.size) name = .ok y → y = .missing) ∧
      (∀ r name x, (write r later (.object s.size) name x).1 ≠ .ok () ∧
        (write r later (.object s.size) name x).2 = later) ∧
      ∀ r name any t, remove r later (.object s.size) name = (.ok any, t) →
        any = false ∧ t = later := by
  have endures := Guardian.endures_runEach (toObject args s).2 steps
  have shown := (displays_toObject args s).endures endures
  obtain ⟨cls, members, grants, held, -⟩ := displays_toObject args s
  refine ⟨_, _, rfl, rfl, held, endures.entity?_of_frozen held rfl, fun r ungranted => ?_, ?_, ?_,
    ?_⟩
  · exact ⟨fun i v hv => read_place shown ungranted hv, read_length shown ungranted,
      keys_eq_places shown ungranted⟩
  · exact fun r name hlength hplaces y hread => eq_missing_of_read shown hlength hplaces hread
  · exact fun r name x => ⟨shown.write_ne_ok x, shown.snd_write x⟩
  · exact fun r name any t hremove => shown.eq_of_remove hremove

/-- Grants on the class of arguments objects: to change an index and the length, and to read an
index that is absent. -/
def indexGrants : Registry :=
  { grants := [⟨.ofClass "Arguments", "0", .ofList [.write, .delete]⟩,
      ⟨.ofClass "Arguments", "length", .ofList [.write, .delete]⟩,
      ⟨.ofClass "Arguments", "3", .ofList [.read, .write]⟩] }

/-- Three arguments, one of them `missing`. -/
def threeArguments : List Value := [.string "a", .missing, .null]

/-- Attempts to change the arguments object. -/
def indexSteps : List (Registry × Guardian.Step) :=
  [(indexGrants, .access (.write (.object 0) "0" .null)),
    (indexGrants, .access (.remove (.object 0) "length")),
    (indexGrants, .access (.write (.object 0) "3" .null))]

/-- Three arguments are shown as they were given, after attempts to change them. -/
theorem arguments_are_shown_for_good_of_threeArguments :
    (∀ m, indexGrants.granted? (.ofInstance 0) m = none) ∧
    ∃ later : Store Unit, later = Guardian.runEach (toObject threeArguments {}).2 indexSteps ∧
      read indexGrants later (.object 0) "1" = .ok .missing ∧
      read indexGrants later (.object 0) "2" = .ok .null ∧
      read indexGrants later (.object 0) "length" = .ok (.int 3) ∧
      keys indexGrants later (.object 0) = .ok ["0", "1", "2"] ∧
      (∀ y, read indexGrants later (.object 0) "3" = .ok y → y = .missing) ∧
      ∀ any t, remove indexGrants later (.object 0) "3" = (.ok any, t) →
        any = false ∧ t = later := by
  have ungranted : ∀ m, indexGrants.granted? (.ofInstance 0) m = none := by
    intro m
    simp [Registry.granted?, indexGrants]
  obtain ⟨e, later, hlater, -, -, -, seen, others, -, removals⟩ :=
    @arguments_are_shown_for_good Unit threeArguments {} indexSteps
  obtain ⟨places, length, listed⟩ := seen indexGrants ungranted
  refine ⟨ungranted, later, hlater, places 1 _ rfl, places 2 _ rfl, length, listed, ?_, ?_⟩
  · exact others indexGrants "3" (by decide) (by decide)
  · exact removals indexGrants "3"

end Arguments

end Confinement
