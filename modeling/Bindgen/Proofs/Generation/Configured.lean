import Bindgen.Proofs.Config.Settings
import Bindgen.Proofs.Generation.Acceptance

/-!
# Rendering under accepted settings

Settings that come from an accepted table, and are changed by texts, always name their backends, so that rendering
reports what is wrong with these and with the model. Two options are used as texts and were never looked at. What
stands in their places is traced back here: it is what the table has there, unless an option was set or all of them
were dropped (`Spoiled`).

Results:
* `usable_of_changes`: which options can be used after some changes.
* `render_configured`: what is rendered, reported or breaks off under accepted settings.
-/

namespace Bindgen

open Interface Boundary Resolve Config Emit

/-- **An option that cannot be used as a text** after some changes: all options were dropped, or none of the changes
sets it and the settings have a value for it that is neither a text nor empty. -/
def Config.Settings.Spoiled (s : Settings) (changes : List Settings.Change) (b : Backend) (key : String) : Prop :=
  Settings.OptionsDropped changes ∨
    (∀ t, .option b.text key t ∉ changes) ∧
      ∃ v, s.option? b.text key = .ok (some v) ∧ v.truthy = true ∧ ∀ t, v ≠ .string t

variable {s₀ s : Settings} {changes : List Settings.Change} {tables : Settings.Tables}

theorem usable_tables (h : s.bindings = tables.json) {b : Backend} {key : String} : s.Usable b key ↔
    ∀ w, tables.option b.text key = some w → (∃ t, w = .string t) ∨ w.truthy = false := by
  unfold Settings.Usable
  rw [Settings.option?_eq h]
  simp

/-- **Which options can be used** after some changes of tables of options. -/
theorem usable_of_changes (h₀ : s₀.bindings = tables.json) (h : changes.foldlM Settings.Change.apply s₀ = .ok s)
    (b : Backend) (key : String) : s.Usable b key ↔ ¬ s₀.Spoiled changes b key := by
  unfold Settings.Spoiled
  rw [Settings.option?_eq h₀]
  obtain ⟨hdropped, t, hs⟩ | ⟨hkept, tables', hs, hrun⟩ := Settings.tables_of_changes h₀ h
  · refine ⟨fun ⟨v, hv, _⟩ => ?_, fun hn => absurd (.inl hdropped) hn⟩
    exact absurd hv (by simp [Settings.option?, hs])
  · rw [usable_tables hs]
    obtain ⟨⟨t, hset⟩, t', ht'⟩ | ⟨hnot, hsame⟩ := hrun b.text key
    · refine ⟨fun _ hspoiled => ?_, fun _ w hw => .inl ⟨t', ?_⟩⟩
      · exact hspoiled.elim hkept fun h => h.1 t hset
      · exact Option.some.inj (hw.symm.trans ht')
    · rw [hsame]
      constructor
      · rintro husable (hd | ⟨-, v, hv, htruthy, hne⟩)
        · exact hkept hd
        · obtain ⟨t, rfl⟩ | hfalse := husable v (Except.ok.inj hv)
          · exact hne t rfl
          · exact absurd htruthy (by simp [hfalse])
      · intro hsound w hw
        by_contra hw'
        obtain ⟨hne, htruthy⟩ := not_or.mp hw'
        exact hsound (.inr ⟨hnot, w, congrArg _ hw, by simpa using htruthy, fun t he => hne ⟨t, he⟩⟩)

/-- **What is rendered for named backends**: files, a justified failure, or nothing, which is where the backends and
the model are fine and one backend has an option that it cannot use. -/
theorem rendered_of_backendNames {g : Generation} {names : List String} (hn : g.settings.backendNames = .ok names)
    (hs : g.spelling = .full) :
    ((∃ outputs, g.rendered = .ok outputs) ∨ (∃ e, g.rendered = .error e ∧ g.Justified e) ∨
      g.rendered = .error .uncovered) ∧
    (g.rendered = .error .uncovered ↔ g.settings.KnowsBackends ∧ g.model.Sound ∧
      ∃ b key, b.text ∈ names ∧ b.textKey? = some key ∧ ¬ g.settings.Usable b key) := by
  obtain ⟨hknown, hsound, backends, rfl, hrendered⟩ | ⟨e, hrendered, hj, hnot⟩ := rendered_outcome hn
  · rw [hrendered]
    cases hfiles : renderFiles g.surface [] backends with
    | ok outputs =>
      refine ⟨.inl ⟨outputs, rfl⟩, by simp, ?_⟩
      rintro ⟨-, -, b, key, hb, hkey, hunusable⟩
      obtain ⟨file, hfile⟩ := file_of_renderFiles hfiles b (text_mem_iff.mp hb)
      exact absurd (hfile.symm.trans (file_of_unusable hkey hunusable)) (by simp)
    | error f =>
      obtain ⟨b, hb, hfile⟩ := renderFiles_eq_error hfiles
      obtain ⟨key, hkey, hunusable⟩ : ∃ key, b.textKey? = some key ∧ ¬ g.settings.Usable b key := by
        by_contra hall
        obtain ⟨front, text, hok⟩ := file_of_usable (s := g.surface) hs (b := b)
          fun key hkey => by_contra fun hu => hall ⟨key, hkey, hu⟩
        exact absurd (hfile.symm.trans hok) (by simp)
      obtain rfl := Except.error.inj (hfile.symm.trans (file_of_unusable hkey hunusable))
      exact ⟨.inr (.inr rfl), fun _ => ⟨hknown, hsound, b, key, text_mem_iff.mpr hb, hkey, hunusable⟩, fun _ => rfl⟩
  · rw [hrendered]
    refine ⟨.inr (.inl ⟨e, rfl, hj⟩), fun he => ?_, fun h => absurd ⟨h.1, h.2.1⟩ hnot⟩
    obtain rfl := Except.error.inj he
    cases hj

/-- **What comes of accepted settings.** A table is accepted just when what is looked at has the right type, and is
reported otherwise. Under the settings of an accepted table, changed by texts, rendering gives files or reports a
condition that really fails; or else it breaks off, which is when nothing is wrong with the backends and the model,
but some backend has an option that it cannot use. -/
theorem render_configured (members : List (String × Json)) (source : String) :
    ((Settings.RightlyTyped (.object members) ∧ ∃ s₀, Settings.ofTable (.object members) source = .ok s₀) ∨
      (¬ Settings.RightlyTyped (.object members) ∧
        ∃ e, Settings.ofTable (.object members) source = .error (.config e))) ∧
    ∀ s₀ changes s, Settings.ofTable (.object members) source = .ok s₀ →
      changes.foldlM Settings.Change.apply s₀ = .ok s → ∀ m : Model,
        let g := Generation.ofModel m s .full
        let r := Generation.fresh Generation.render g
        ((∃ outputs, r = .ok outputs) ∨ (∃ e, r = .error e ∧ g.Justified e) ∨ r = .error .uncovered) ∧
        (r = .error .uncovered ↔ s.KnowsBackends ∧ g.model.Sound ∧
          ∃ names b key, s.backendNames = .ok names ∧ b.text ∈ names ∧ b.textKey? = some key ∧
            s₀.Spoiled changes b key) := by
  have htable : (JsonOf.object members).members?.isSome = true := rfl
  obtain ⟨htyped, s₁, names₁, hok, hbindings, hnames₁⟩ | ⟨hnot, e, herror⟩ := Settings.ofTable_outcome htable source
  swap
  · refine ⟨.inr ⟨hnot, e, herror⟩, fun s₀ changes s h => absurd (herror.symm.trans h) (by simp)⟩
  refine ⟨.inl ⟨htyped, s₁, hok⟩, fun s₀ changes s h₀ h m => ?_⟩
  obtain rfl := Except.ok.inj (hok.symm.trans h₀)
  obtain ⟨tables, htables⟩ := Settings.exists_tables htyped.bindings
  have husable := usable_of_changes (hbindings.trans htables) h
  obtain ⟨names, hn⟩ := (foldlM_preserves (fun _ _ _ => Settings.Change.apply_names) h
    (.inl ⟨names₁, hnames₁⟩ : s₁.NamesBackends)).names
  intro g r
  have hsettings : g.settings = s := ofModel_settings m s .full
  have hspelling : g.spelling = .full := ofModel_spelling m s .full
  have hr : r = g.rendered := fresh_render g
  rw [hr]
  rw [← hsettings] at husable hn ⊢
  obtain ⟨houtcome, huncovered⟩ := rendered_of_backendNames hn hspelling
  refine ⟨houtcome, huncovered.trans (and_congr_right fun _ => and_congr_right fun _ => ?_)⟩
  constructor
  · rintro ⟨b, key, hb, hkey, hunusable⟩
    exact ⟨names, b, key, hn, hb, hkey, not_not.mp fun hspoiled => hunusable ((husable b key).mpr hspoiled)⟩
  · rintro ⟨names', b, key, hn', hb, hkey, hspoiled⟩
    obtain rfl := Except.ok.inj (hn.symm.trans hn')
    exact ⟨b, key, hb, hkey, fun hu => (husable b key).mp hu hspoiled⟩

/-- An accepted table with a number as an option: nothing is rendered for the shop. -/
theorem render_configured_number :
    let members := [("bindings", JsonOf.object [("c", .object [("api_macro", .int 3)])])]
    let s₀ : Settings := { Settings.default with bindings := .object [("c", .object [("api_macro", .int 3)])] }
    let changes := [Settings.Change.override [("backends", "c")], .option "kotlin" "package_name" "shop.api"]
    let s : Settings := { s₀ with
      backends := .string "c"
      bindings := .object [("c", .object [("api_macro", .int 3)]),
        ("kotlin", .object [("package_name", .string "shop.api")])] }
    Settings.ofTable (.object members) "<config>" = .ok s₀ ∧ changes.foldlM Settings.Change.apply s₀ = .ok s ∧
      Generation.fresh Generation.render (.ofModel shopModel s .full) = .error .uncovered := by
  intro members s₀ changes s
  have h₀ : Settings.ofTable (.object members) "<config>" = .ok s₀ := rfl
  have h : changes.foldlM Settings.Change.apply s₀ = .ok s := rfl
  have hsound : shopModel.Sound := sound_iff.2 ⟨passes_of_isOk (by decide +kernel), by decide⟩
  have hspoiled : s₀.Spoiled changes .c "api_macro" :=
    .inr ⟨by simp [changes, Backend.text], .int 3, rfl, rfl, by simp [JsonOf.int]⟩
  refine ⟨h₀, h, ((render_configured members "<config>").2 s₀ changes s h₀ h shopModel).2.2 ?_⟩
  exact ⟨⟨[.c], rfl⟩, hsound, ["c"], .c, "api_macro", rfl, List.mem_cons_self, rfl, hspoiled⟩

end Bindgen
