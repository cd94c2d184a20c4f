import Bindgen.Proofs.Native.Holdings
import Bindgen.Proofs.Resolve.Defined

/-!
# Modules

The module of a model has wrappers for the callables of the model, and what has taken a name in it is called as
the module calls it. So it is tame, whatever it is called with, and an aside in a wrapper of the module only adds
to the requests of a session.

Results:
* `ofModel_eq_ok`, `model_of_ofModel`, `table_of_ofModel`: the module of a model.
* `tamed_of_ofModel`, `grows_of_ofModel`: what comes of a name that is taken.
-/

namespace Bindgen.Native

open Interface Resolve Emit Identifier Wire

variable {m : Model} {b : Wrappers} {limit : ℕ}

namespace Wrappers

/-- **A module.** Its names stand for the functions of the model, and what has taken a name is called with
nothing that could be taken again. -/
theorem ofModel_eq_ok (h : ofModel m limit = .ok b) :
    ∃ symbols table, tableOf m = .ok table ∧ PythonModule.isLoadable m table symbols = true ∧
      let schema : Schema := ⟨table, m.functions.map calledName⟩
      b = ⟨m, schema, limit, fun meant =>
        (⟨m, schema, limit, fun _ _ => throw .unsupported⟩ : Wrappers).callGlobal meant.name⟩ := by
  obtain ⟨symbols, -, h⟩ := bind_eq_ok.mp h
  obtain ⟨table, htable, h⟩ := bind_eq_ok.mp h
  cases hload : PythonModule.isLoadable m table symbols with
  | true =>
    simp only [hload] at h
    exact ⟨symbols, table, htable, hload, (pure_eq_ok.mp h).symm⟩
  | false =>
    rw [hload] at h
    obtain ⟨_, h, -⟩ := bind_eq_ok.mp h
    exact absurd h (by simp [throw, throwThe, MonadExceptOf.throw])

theorem model_of_ofModel (h : ofModel m limit = .ok b) : b.model = m := by
  obtain ⟨_, table, -, -, rfl⟩ := ofModel_eq_ok h
  rfl

theorem table_of_ofModel (h : ofModel m limit = .ok b) {table : Table} (htable : tableOf m = .ok table) :
    b.schema.table = table := by
  obtain ⟨_, table', htable', -, rfl⟩ := ofModel_eq_ok h
  exact Except.ok.inj (htable'.symm.trans htable)

/-- A definition is found under its name. -/
theorem lookup_definition (h : ofModel m limit = .ok b) {d : Definition} (hd : d ∈ m.definitions) :
    b.schema.table.lookup d.name = some d := by
  obtain ⟨_, table, htable, -, rfl⟩ := ofModel_eq_ok h
  obtain ⟨hnames, rfl⟩ := tableOf_eq_ok.1 htable
  exact (lookup_named hnames).2 ⟨hd, rfl⟩

theorem knowsObjects_of_ofModel (h : ofModel m limit = .ok b) : b.KnowsObjects := by
  obtain ⟨_, table, htable, -, rfl⟩ := ofModel_eq_ok h
  obtain ⟨-, rfl⟩ := tableOf_eq_ok.1 htable
  intro name o hl
  have hmem := (mem_named.1 (mem_of_lookup hl)).1
  simpa [Model.definitions] using hmem

/-- **In the module of a model** a name that is taken is tame. -/
theorem tamed_of_ofModel (h : ofModel m limit = .ok b) : b.Tamed := by
  have hknows := knowsObjects_of_ofModel h
  obtain ⟨_, table, -, -, hmodule⟩ := ofModel_eq_ok h
  dsimp only at hmodule
  subst hmodule
  intro meant args
  let inner : Wrappers := ⟨m, ⟨table, m.functions.map calledName⟩, limit, fun _ _ => throw .unsupported⟩
  have hinner : inner.Tamed := fun _ _ => Tame.throw
  exact callGlobal_tame (b := inner) hinner hknows meant.name args

/-- **A module only adds to the requests of a session.** -/
theorem grows_of_ofModel (h : ofModel m limit = .ok b) : b.Grows :=
  fun meant args s => (tamed_of_ofModel h meant args s).mono fun _ _ _ _ _ _ => trivial

end Wrappers

end Bindgen.Native
