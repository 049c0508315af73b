import Mathlib.Data.List.Nodup
import Mathlib.Data.List.Zip
import Mathlib.Logic.Function.Basic
import StackScript.Machine.Instance
import StackScript.Proofs.TypedValues

/-!
# Cells as functions

Cells whose names are fixed are a function on names. Looking up a cell evaluates the function, and
setting a cell updates it; the names stay what they were.

## Main definitions

* `Cells.ofNames`: the cells of a function on names.

## Main results

* `Cells.lookup_ofNames`, `Cells.set_ofNames`: looking up and setting.
* `Func.initialLocals_eq`, `Module.initialStore_eq`: the cells of a new activation, of a new instance.
-/

namespace StackScript

/-- A function whose values have a type, after an update with one of that type. -/
theorem type_update {t : ValueType} {value : Text → Value} (h : ∀ x, (value x).type = t)
    (name : Text) {v : Value} (hv : v.type = t) (x : Text) :
    (Function.update value name v x).type = t := by
  by_cases hx : x = name
  · rw [hx, Function.update_self, hv]
  · rw [Function.update_of_ne hx, h]

namespace Cells

/-- The cells of some names that hold what a function gives. -/
def ofNames (names : List Text) (value : Text → Value) : Cells :=
  names.map fun name => (name, value name)

variable {names : List Text} {value : Text → Value} {name : Text}

theorem lookup_ofNames (hname : name ∈ names) :
    (ofNames names value).lookup name = some (value name) := by
  induction names with
  | nil => cases hname
  | cons first rest ih =>
    by_cases hfirst : name = first
    · simp [ofNames, hfirst]
    · rw [ofNames, List.map_cons, List.lookup_cons, beq_eq_false_iff_ne.mpr hfirst]
      exact ih ((List.mem_cons.mp hname).resolve_left hfirst)

theorem set_ofNames (hnodup : names.Nodup) (hname : name ∈ names) (v : Value) :
    (ofNames names value).set name v = ofNames names (Function.update value name v) := by
  induction names with
  | nil => cases hname
  | cons first rest ih =>
    obtain ⟨hfirst, hrest⟩ := List.nodup_cons.mp hnodup
    by_cases heq : first = name
    · subst heq
      have hothers : rest.map (fun x => (x, value x)) =
          rest.map fun x => (x, Function.update value first v x) :=
        List.map_congr_left fun x hx => by
          rw [Function.update_of_ne (ne_of_mem_of_not_mem hx hfirst)]
      simp [ofNames, set, hothers]
    · have htail := ih hrest ((List.mem_cons.mp hname).resolve_left (Ne.symm heq))
      simp only [ofNames, List.map_cons, set, if_neg heq] at htail ⊢
      rw [htail, Function.update_of_ne heq]

/-- Setting a name that is not there adds it at the end. -/
theorem set_ofNames_of_notMem (hname : name ∉ names) (v : Value) :
    (ofNames names value).set name v = ofNames (names ++ [name]) (Function.update value name v) := by
  induction names with
  | nil => simp [ofNames, set]
  | cons first rest ih =>
    obtain ⟨hfirst, hrest⟩ : name ≠ first ∧ name ∉ rest := by simpa using hname
    have htail := ih hrest
    simp only [ofNames, List.map_cons, List.cons_append, set, if_neg (Ne.symm hfirst)] at htail ⊢
    rw [htail, Function.update_of_ne (Ne.symm hfirst)]

theorem ofNames_congr {value' : Text → Value} (h : ∀ name ∈ names, value name = value' name) :
    ofNames names value = ofNames names value' :=
  List.map_congr_left fun name hname => by rw [h name hname]

/-- Setting the cells of new names one after another. -/
theorem foldl_set_ofNames {α : Type} (names : List Text) (value : Text → Value)
    (key : α → Text) (item : α → Value) (items : List α)
    (hnodup : (names ++ items.map key).Nodup) :
    items.foldl (fun cells x => Cells.set (key x) (item x) cells) (ofNames names value) =
      ofNames (names ++ items.map key)
        (items.foldl (fun value x => Function.update value (key x) (item x)) value) := by
  induction items generalizing names value with
  | nil => simp
  | cons first rest ih =>
    have hfirst : key first ∉ names := fun hmem =>
      (List.nodup_append.mp hnodup).2.2 _ hmem _ List.mem_cons_self rfl
    rw [List.foldl_cons, List.foldl_cons, set_ofNames_of_notMem hfirst,
      ih _ _ (by simpa using hnodup)]
    simp

end Cells

theorem lookup_eq_none_of_notMem {pairs : List (Text × Value)} {x : Text}
    (hx : x ∉ pairs.map Prod.fst) : pairs.lookup x = none := by
  rw [List.lookup_eq_none_iff]
  rintro ⟨key, v⟩ hp
  exact bne_iff_ne.mpr fun (heq : x = key) => hx (heq ▸ List.mem_map_of_mem hp)

/-- A function after updates at different places. -/
theorem foldl_update_apply (pairs : List (Text × Value)) (hnodup : (pairs.map Prod.fst).Nodup)
    (value : Text → Value) (x : Text) :
    pairs.foldl (fun value p => Function.update value p.1 p.2) value x =
      (pairs.lookup x).getD (value x) := by
  induction pairs generalizing value with
  | nil => rfl
  | cons first rest ih =>
    obtain ⟨key, v⟩ := first
    obtain ⟨hkey, hrest⟩ := List.nodup_cons.mp hnodup
    rw [List.foldl_cons, ih hrest, List.lookup_cons]
    by_cases hx : x = key
    · simp [hx, lookup_eq_none_of_notMem hkey]
    · rw [beq_eq_false_iff_ne.mpr hx, Function.update_of_ne hx]

theorem foldl_update_const_apply (names : List Text) (v : Value) (value : Text → Value)
    (x : Text) :
    names.foldl (fun value name => Function.update value name v) value x =
      if x ∈ names then v else value x := by
  induction names generalizing value with
  | nil => rfl
  | cons first rest ih =>
    rw [List.foldl_cons, ih]
    by_cases hx : x = first <;> simp [hx]

/-- The arguments of a call, with zeros besides, have the type of the arguments. -/
theorem type_getD_lookup {t : ValueType} {args : List Value} (hargs : ∀ v ∈ args, v.type = t)
    (params : List Text) (name : Text) :
    (((params.zip args).lookup name).getD (.zero t)).type = t := by
  cases hlookup : (params.zip args).lookup name with
  | none => exact Value.type_zero t
  | some v =>
    obtain ⟨before, after, hsplit, -⟩ := List.lookup_eq_some_iff.mp hlookup
    have hmem : (name, v) ∈ params.zip args := by simp [hsplit]
    exact hargs v (List.of_mem_zip hmem).2

/-- The cells of a new activation: the arguments under the parameters, and zeros. -/
theorem Func.initialLocals_eq (t : ValueType) {f : Func} (hnodup : (f.params ++ f.locals).Nodup)
    {args : List Value} (harity : args.length = f.arity) :
    f.initialLocals t args = Cells.ofNames (f.params ++ f.locals)
      fun name => ((f.params.zip args).lookup name).getD (.zero t) := by
  obtain ⟨hparams, hlocals, hdisjoint⟩ := List.nodup_append.mp hnodup
  have hkeys : (f.params.zip args).map Prod.fst = f.params :=
    List.map_fst_zip (Nat.le_of_eq harity.symm)
  have hgiven : (f.params.zip args).foldl (fun cells cell => Cells.set cell.1 cell.2 cells) [] =
      Cells.ofNames f.params fun name => ((f.params.zip args).lookup name).getD (.zero t) := by
    have hfold := Cells.foldl_set_ofNames [] (fun _ => .zero t) Prod.fst Prod.snd
      (f.params.zip args) (by simpa [hkeys] using hparams)
    rw [hkeys] at hfold
    refine hfold.trans (Cells.ofNames_congr fun name _ => ?_)
    exact foldl_update_apply _ (by rwa [hkeys]) _ name
  change Cells.setZeros t f.locals
    ((f.params.zip args).foldl (fun cells cell => Cells.set cell.1 cell.2 cells) []) = _
  rw [hgiven, Cells.setZeros]
  have hzeros := Cells.foldl_set_ofNames f.params
    (fun name => ((f.params.zip args).lookup name).getD (.zero t)) id (fun _ => .zero t) f.locals
    (by simpa using hnodup)
  rw [List.map_id] at hzeros
  refine hzeros.trans (Cells.ofNames_congr fun name _ => ?_)
  refine (foldl_update_const_apply f.locals (.zero t) _ name).trans ?_
  split
  · rename_i hname
    -- a local is no parameter, so no argument stands under its name
    have hparam : name ∉ (f.params.zip args).map Prod.fst := by
      rw [hkeys]
      exact fun hmem => hdisjoint name hmem name hname rfl
    rw [lookup_eq_none_of_notMem hparam, Option.getD_none]
  · rfl

/-- The globals of a new instance are zero. -/
theorem Module.initialStore_eq {m : Module} {t : ValueType} (htype : ∀ g ∈ m.globals, g.type = t)
    (hnodup : (m.globals.map Global.name).Nodup) :
    m.initialStore = { globals := Cells.ofNames (m.globals.map Global.name) fun _ => .zero t } := by
  have hfold := Cells.foldl_set_ofNames [] (fun _ => .zero t) Global.name
    (fun g => .zero g.type) m.globals hnodup
  have hzero (globals : List Global) (htype : ∀ g ∈ globals, g.type = t) :
      globals.foldl (fun value g => Function.update value g.name (.zero g.type))
        (fun _ => .zero t) = fun _ => Value.zero t := by
    induction globals with
    | nil => rfl
    | cons first rest ih =>
      obtain ⟨hfirst, hrest⟩ := List.forall_mem_cons.mp htype
      rw [List.foldl_cons, hfirst, Function.update_eq_self first.name fun _ => Value.zero t, ih hrest]
  rw [hzero m.globals htype] at hfold
  exact congrArg (Store.mk · []) hfold

end StackScript
