import Inlay.Proofs.Settings.WellFormed
import Inlay.Settings.Profile

/-!
# Checked settings

Whatever a check accepts, in either mode and from any value, has the type and the form that the
commands rely on (`checked_of_checkSettings`).
-/

namespace Inlay

variable [Host]

/-- What the commands find in checked settings. -/
structure Profile.Checked (profile : Profile) : Prop where
  extensions : ∃ source target, profile.sourceExtension = some source ∧
    profile.targetExtension = some target ∧ source.head? = some '.' ∧ target.head? = some '.' ∧
    source ≠ target
  encoding : ∃ name, profile.encoding = some name ∧ Encoding.IsName name
  statPolicy : ∃ name, profile.statPolicy = some name ∧ (StatPolicy.ofName? name).isSome = true
  statRetries : ∃ n, profile.statRetries = some n ∧ 0 ≤ n
  failFast : ∃ flag, profile.failFast = some flag
  saveErrorLog : ∃ flag, profile.saveErrorLog = some flag
  errorLogName : ∃ name, profile.errorLogName = some name

theorem Profile.Checked.extensions_ne_nil {profile : Profile} (h : profile.Checked)
    {source target : Text} (hs : profile.sourceExtension = some source)
    (ht : profile.targetExtension = some target) : source ≠ [] ∧ target ≠ [] := by
  obtain ⟨source', target', hs', ht', hheads, hheadt, _⟩ := h.extensions
  obtain rfl : source = source' := Option.some.inj (hs.symm.trans hs')
  obtain rfl : target = target' := Option.some.inj (ht.symm.trans ht')
  constructor
  · rintro rfl
    simp at hheads
  · rintro rfl
    simp at hheadt

theorem Profile.Checked.head_target {profile : Profile} (h : profile.Checked) {target : Text}
    (ht : profile.targetExtension = some target) : target.head? = some '.' := by
  obtain ⟨_, target', _, ht', _, hheadt, _⟩ := h.extensions
  rwa [Option.some.inj (ht.symm.trans ht')]

omit [Host] in
theorem Profile.text?_of_get? {table : Table} {key : String} {t : Text}
    (h : table.get? key = some (.text t)) : Profile.text? table key = some t := by
  rw [Profile.text?, h]

theorem Profile.checked_of_wellFormed {table : Table} (h : Setting.WellFormed table) :
    (Profile.ofTable table).Checked := by
  obtain ⟨source, target, hs, ht, _, _, hsh, hth, hne⟩ := h.apart
  obtain ⟨name, hname, hencoding⟩ := h.encoding
  obtain ⟨policy, hpolicy⟩ := h.policy
  obtain ⟨n, hn, hpos⟩ := h.retries
  obtain ⟨fast, hfast⟩ := h.flags Setting.failFast (by decide)
  obtain ⟨save, hsave⟩ := h.flags Setting.saveErrorLog (by decide)
  obtain ⟨log, hlog, _⟩ := h.texts Setting.errorLogName (by decide)
  refine ⟨⟨source, target, text?_of_get? hs, text?_of_get? ht, hsh, hth, hne⟩,
    ⟨name, text?_of_get? hname, hencoding⟩, ⟨_, text?_of_get? hpolicy, ?_⟩, ⟨n, ?_, hpos⟩,
    ⟨fast, ?_⟩, ⟨save, ?_⟩, ⟨log, text?_of_get? hlog⟩⟩
  · rw [StatPolicy.ofName?_name]
    rfl
  · simp only [ofTable, int?]
    rw [hn]
  · simp only [ofTable]
    rw [hfast]
    rfl
  · simp only [ofTable]
    rw [hsave]
    rfl

/-- Settings that a check has accepted have the form that the commands rely on. -/
theorem checked_of_checkSettings {mode : CheckMode} {given : Value} {table : Table}
    {findings : List Finding} (h : checkSettings mode given = .ok (table, findings)) :
    (Profile.ofTable table).Checked :=
  Profile.checked_of_wellFormed (Setting.wellFormed_of_checkSettings h)

end Inlay
