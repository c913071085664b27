import Inlay.CommandLine.Program
import Inlay.Proofs.Settings.Saved
import Inlay.Proofs.Workspace.Files
import Mathlib

/-!
# Settings of a run, and of the next one

A run that saves its settings is repeated by a later run that is given nothing but the same file
(`resolve_of_saved`): the later run loads what the first one has saved, and the check has nothing
left to change or to report.
-/

namespace Inlay

variable [Host]

open Setting

namespace Options

omit [Host] in
theorem eq_of_mem_textOverride {key other : String} {value : Option Text}
    (h : other ∈ (textOverride key value).keys) : other = key := by
  cases value with
  | none => simp [textOverride, Table.keys] at h
  | some t => simpa [textOverride, Table.keys] using h

omit [Host] in
theorem eq_of_mem_flagOverride {key other : String} {given : Bool}
    (h : other ∈ (flagOverride key given).keys) : other = key := by
  cases given with
  | false => simp [flagOverride, Table.keys] at h
  | true => simpa [flagOverride, Table.keys] using h

omit [Host] in
theorem mem_keys_overrides {o : Options} {key : String} (h : key ∈ o.overrides.keys) :
    key ∈ defaults.keys ∧ key ≠ statRetries := by
  have hknown : ∀ key ∈ [Setting.compiler, Setting.sourceExtension, Setting.targetExtension,
      Setting.failFast, Setting.saveErrorLog], key ∈ defaults.keys ∧ key ≠ statRetries := by decide
  apply hknown
  rw [overrides, Table.keys] at h
  simp only [List.map_append, List.mem_append] at h
  rcases h with (((h | h) | h) | h) | h
  · simp [eq_of_mem_textOverride h]
  · simp [eq_of_mem_textOverride h]
  · simp [eq_of_mem_textOverride h]
  · simp [eq_of_mem_flagOverride h]
  · simp [eq_of_mem_flagOverride h]

/-- The options give nothing but the file of another run. -/
structure OnlyReads (later o : Options) : Prop where
  config : later.config = o.config
  overrides : later.overrides = []
  saveConfig : later.saveConfig = false
  useDefaults : later.useDefaults = false

end Options

namespace Program

/-! ### Before and after saving -/

/-- The settings that a table gives; what is wrong with it is logged. -/
def accept (given : Table) : Action Table :=
  match checkSettings .lenient (.table given) with
  | .error f => throw (.settings f)
  | .ok (settings, findings) => do
    for finding in findings do
      Action.log Level.warning logger s!"Configuration Constraint: {finding.warning}"
    return settings

def loaded (o : Options) (path : Option Path) : Action Table :=
  if o.useDefaults then pure Setting.defaults else Store.load path

/-- The settings of a run, before they are saved. -/
def settle (o : Options) (path : Option Path) : Action Table := do
  let saved ← loaded o path
  accept (saved.update o.overrides)

theorem accept_bind {β : Type} (given : Table) (f : Table → Action β) :
    accept given >>= f =
      match checkSettings .lenient (.table given) with
      | .error fault => throw (.settings fault)
      | .ok (settings, findings) => (do
        for finding in findings do
          Action.log Level.warning logger s!"Configuration Constraint: {finding.warning}"
        f settings) := by
  unfold accept
  cases checkSettings .lenient (.table given) with
  | error fault => rfl
  | ok r => simp only [bind_assoc, pure_bind]

theorem resolveSettings_eq (o : Options) :
    resolveSettings o = do
      let path ← settingsFile o
      let settings ← settle o path
      if o.saveConfig then saveSettings settings path
      return settings := by
  unfold resolveSettings settle loaded
  refine congrArg (settingsFile o >>= ·) (funext fun path => ?_)
  cases o.useDefaults with
  | true =>
    simp only [if_true, pure_bind]
    exact (accept_bind ..).symm
  | false =>
    simp only [Bool.false_eq_true, if_false, bind_assoc]
    exact congrArg (Store.load path >>= ·) (funext fun saved => (accept_bind ..).symm)

/-- A run up to the file that it has saved its settings in; here a failure to write is not
forgiven. -/
def saving (o : Options) : Action Path := do
  let path ← settingsFile o
  let settings ← settle o path
  Store.save settings path

theorem repeats_settingsFile (o : Options) : (settingsFile o).Repeats := by
  unfold settingsFile
  cases o.config.filter (!·.isEmpty) with
  | none => exact Action.repeats_pure _
  | some path =>
    exact Action.repeats_bind Home.repeats_settingsFile fun _ =>
      Action.repeats_bind (Home.repeats_normalize path _) fun _ => Action.repeats_pure _

theorem settingsFile_eq {o later : Options} (h : later.config = o.config) :
    settingsFile later = settingsFile o := by
  rw [settingsFile, settingsFile, h]

/-! ### Settling -/

theorem abides_settle (o : Options) (path : Option Path) : (settle o path).Abides := by
  refine Action.abides_bind ?_ fun saved => ?_
  · unfold loaded
    split
    · exact Action.abides_pure _
    · exact Store.abides_load path
  · unfold accept
    split
    · exact Action.abides_throw _
    · exact Action.abides_bind (Action.abides_forIn (fun _ => Action.abides_log _ _ _) _)
        fun _ => Action.abides_pure _

omit [Host] in
theorem loadable_update {saved : Table} (h : Loadable saved) (o : Options) :
    Loadable (saved.update o.overrides) where
  keys := by
    rw [Table.keys_update fun key hkey => ?_, h.keys]
    rw [h.keys]
    exact (Options.mem_keys_overrides hkey).1
  bounded n hn := by
    rw [Table.get?_update_of_not_mem fun hkey => (Options.mem_keys_overrides hkey).2 rfl] at hn
    exact h.bounded n hn

theorem storable_of_check {given settings : Table} {findings : List Finding} (h : Loadable given)
    (hc : checkSettings .lenient (.table given) = .ok (settings, findings)) :
    Storable settings := by
  have ha := accepts_of_checkSettings hc
  rw [h.update_defaults] at ha
  refine ⟨⟨ha.keys.trans h.keys, fun n hn => ?_⟩, ha.wellFormed⟩
  rcases ha.retries n hn with hgiven | hlt
  · exact h.bounded n hgiven
  · obtain ⟨m, hm, hpos⟩ := ha.wellFormed.retries
    obtain rfl := Value.int.inj (Option.some.inj (hm.symm.trans hn))
    omega

theorem storable_of_accept {given settings : Table} {s s' : Workspace} (h : Loadable given)
    (hr : (accept given).runOn s = (.ok settings, s')) : Storable settings := by
  unfold accept at hr
  split at hr
  · simp at hr
  · next settings' findings hc =>
    obtain ⟨_, s₁, _, hr⟩ := Action.exists_of_runOn_bind hr
    obtain rfl := Except.ok.inj (Prod.mk.inj hr).1
    exact storable_of_check h hc

theorem storable_of_settle {o : Options} {path : Option Path} {settings : Table}
    {s s' : Workspace} (h : (settle o path).runOn s = (.ok settings, s')) : Storable settings := by
  unfold settle at h
  obtain ⟨saved, s₁, hsaved, h⟩ := Action.exists_of_runOn_bind h
  refine storable_of_accept (loadable_update ?_ o) h
  unfold loaded at hsaved
  split at hsaved
  · obtain rfl := Except.ok.inj (Prod.mk.inj hsaved).1
    exact Store.loadable_defaults
  · exact Store.loadable_of_load hsaved

theorem check_storable {settings : Table} (h : Storable settings) :
    checkSettings .lenient (.table settings) = .ok (settings, []) :=
  check_fixed .lenient h.wellFormed h.update_defaults

theorem runOn_accept_storable {settings : Table} (h : Storable settings) (s : Workspace) :
    (accept settings).runOn s = (.ok settings, s) := by
  unfold accept
  rw [check_storable h]
  rfl

/-! ### Saving and running again -/

theorem logged_of_saveSettings {settings : Table} {path : Option Path} {file : Path}
    {s r s' : Workspace} (hsave : (Store.save settings path).runOn s = (.ok file, r))
    (h : (saveSettings settings path).runOn s = (.ok (), s')) : ∃ record, s' = r.logged record := by
  have hattempt : (Action.attempt (Store.save settings path)).runOn s = (.ok (.ok file), r) := by
    rw [Action.runOn_attempt, hsave]
  unfold saveSettings at h
  rw [Action.runOn_bind_of_ok hattempt] at h
  exact ⟨_, (Prod.mk.inj h).2.symm⟩

/-- The stages of a run that saves its settings, and writes them. -/
structure Stages (o : Options) (s s₁ r : Workspace) (path : Option Path) (settings : Table)
    (file : Path) : Prop where
  found : (settingsFile o).runOn s = (.ok path, s)
  settled : (settle o path).runOn s = (.ok settings, s₁)
  stored : (Store.save settings path).runOn s₁ = (.ok file, r)

theorem stages_of_saving {o : Options} {s s' r : Workspace} {settings : Table} {file : Path}
    (hsave : o.saveConfig = true) (hrun : (resolveSettings o).runOn s = (.ok settings, s'))
    (hwritten : (saving o).runOn s = (.ok file, r)) :
    ∃ path s₁ record, Stages o s s₁ r path settings file ∧ s' = r.logged record := by
  rw [resolveSettings_eq] at hrun
  obtain ⟨path, s₀, hpath, hrest⟩ := Action.exists_of_runOn_bind hrun
  obtain ⟨rfl, -⟩ := repeats_settingsFile o s s path s₀ ⟨rfl, rfl, id⟩ hpath
  unfold saving at hwritten
  rw [Action.runOn_bind_of_ok hpath] at hwritten
  obtain ⟨settings', s₁, hsettle, hstored⟩ := Action.exists_of_runOn_bind hwritten
  rw [Action.runOn_bind_of_ok hsettle, if_pos hsave] at hrest
  obtain ⟨_, s₂, hsaved, hend⟩ := Action.exists_of_runOn_bind hrest
  obtain ⟨hsettings, rfl⟩ := Prod.mk.inj hend
  obtain rfl := Except.ok.inj hsettings
  obtain ⟨record, hrecord⟩ := logged_of_saveSettings hstored hsaved
  exact ⟨path, s₁, record, ⟨hpath, hsettle, hstored⟩, hrecord⟩

theorem Stages.resolve {o : Options} {s s₁ r : Workspace} {path : Option Path} {settings : Table}
    {file : Path} (h : Stages o s s₁ r path settings file) (hsave : o.saveConfig = true) :
    (∃ s', (resolveSettings o).runOn s = (.ok settings, s')) ∧
      (saving o).runOn s = (.ok file, r) := by
  have hattempt : (Action.attempt (Store.save settings path)).runOn s₁ = (.ok (.ok file), r) := by
    rw [Action.runOn_attempt, h.stored]
  obtain ⟨s₂, hsaved⟩ : ∃ s₂, (saveSettings settings path).runOn s₁ = (.ok (), s₂) := by
    unfold saveSettings
    rw [Action.runOn_bind_of_ok hattempt]
    exact ⟨_, rfl⟩
  constructor
  · rw [resolveSettings_eq, Action.runOn_bind_of_ok h.found, Action.runOn_bind_of_ok h.settled,
      if_pos hsave, Action.runOn_bind_of_ok hsaved]
    exact ⟨_, rfl⟩
  · unfold saving
    rw [Action.runOn_bind_of_ok h.found, Action.runOn_bind_of_ok h.settled, h.stored]

/-- After a run that has saved its settings, a run with nothing but the same file has the same
settings, as long as the file and the way to it stay. Nothing is left to be reported. -/
theorem resolve_of_saved {o later : Options} {s s' r t : Workspace} {settings : Table}
    {file : Path} (hs : s.volume.Sound) (hsave : o.saveConfig = true)
    (hrun : (resolveSettings o).runOn s = (.ok settings, s'))
    (hwritten : (saving o).runOn s = (.ok file, r)) (hlater : later.OnlyReads o)
    (hhome : s'.SameHome t) (hfile : t.volume.read file = s'.volume.read file)
    (hquiet : (planned .loadSettings file t.faults).1 = none) :
    (resolveSettings later).runOn t = (.ok settings, t) ∧
      ∃ path saved, (settingsFile later).runOn t = (.ok path, t) ∧
        (loaded later path).runOn t = (.ok saved, t) ∧
        checkSettings .lenient (.table (saved.update later.overrides)) = .ok (settings, []) := by
  obtain ⟨path, s₁, record, hstages, rfl⟩ := stages_of_saving hsave hrun hwritten
  have hbefore := (abides_settle o path).of_runOn hstages.settled
  have hafter := ((Store.abides_save settings _).of_runOn hstages.stored).trans
    (r.abides_logged record)
  have hhome' := hafter.toSameHome.trans hhome
  have hstorable := storable_of_settle hstages.settled
  obtain ⟨htarget, hu, hread⟩ := Store.read_of_save (hbefore.sound hs) hstages.stored
  have hpath : (settingsFile later).runOn t = (.ok path, t) := by
    rw [settingsFile_eq hlater.config]
    exact (repeats_settingsFile o s t path s (hbefore.toSameHome.trans hhome') hstages.found).2
  have hload : (loaded later path).runOn t = (.ok settings, t) := by
    unfold loaded
    rw [hlater.useDefaults, if_neg Bool.false_ne_true]
    refine Store.load_of_read hstorable
      (Store.repeats_target path s₁ t file s₁ hhome' htarget).2 hu hquiet ?_
    rw [hfile, Workspace.logged_volume, hread]
  have hupdate : settings.update later.overrides = settings := by
    rw [hlater.overrides, Table.update_nil]
  refine ⟨?_, path, settings, hpath, hload, ?_⟩
  · have hsettled : (settle later path).runOn t = (.ok settings, t) := by
      unfold settle
      rw [Action.runOn_bind_of_ok hload, hupdate, runOn_accept_storable hstorable]
    rw [resolveSettings_eq, Action.runOn_bind_of_ok hpath, Action.runOn_bind_of_ok hsettled,
      hlater.saveConfig]
    rfl
  · rw [hupdate]
    exact check_storable hstorable

end Program

end Inlay

namespace Inlay.Program

open Standard Setting

def sloppyFile : Text := "\x7b\"fail_fast\": \"yes\"\x7d".toList

def sloppyWorkspace : Workspace :=
  Workspace.holding [(["conf.json".toList], .file (Utf8.encode sloppyFile))]

def sloppyOptions : Options where
  compiler := none
  sourceExtension := some "tée".toList
  targetExtension := none
  failFast := false
  errorLog := true
  config := some "conf.json".toList
  useDefaults := false
  saveConfig := true
  logFile := none
  debug := false
  json := false

/-- A file that is not quite what is saved, and an extension without its point. -/
theorem resolve_of_saved_of_sloppy :
    ∃ (o later : Options) (s s' r t : Workspace) (settings : Table) (file : Path),
      s.volume.Sound ∧ o.saveConfig = true ∧ (resolveSettings o).runOn s = (.ok settings, s') ∧
        (saving o).runOn s = (.ok file, r) ∧ later.OnlyReads o ∧ t.volume = s'.volume ∧
          (resolveSettings later).runOn t = (.ok settings, t) := by
  have hread : sloppyWorkspace.volume.read "/conf.json".toList =
      .ok (Utf8.encode sloppyFile) := by cbv
  have hjson : Json.read Host.readDepth (Store.unifyLines sloppyFile) =
      .ok (.table [("fail_fast", .text "yes".toList)]) := by cbv
  have husable : Path.IsUsable "/conf.json".toList := by decide
  have hfound : (settingsFile sloppyOptions).runOn sloppyWorkspace =
      (.ok (some "/conf.json".toList), sloppyWorkspace) := by cbv
  have htarget (s : Workspace) : (Store.target (some "/conf.json".toList)).runOn s =
      (.ok "/conf.json".toList, s) := rfl
  have hload : (loaded sloppyOptions (some "/conf.json".toList)).runOn sloppyWorkspace =
      (.ok (Store.merge [("fail_fast", .text "yes".toList)]), sloppyWorkspace) := by
    rw [loaded, if_neg (by decide)]
    refine (Store.runOn_load (htarget _) husable rfl hread).trans ?_
    rw [Store.ofText, hjson, Action.runOn_pure]
  obtain ⟨settings, s₁, hsettle, hvolume, hfaults, hencode⟩ : ∃ settings s₁,
      (settle sloppyOptions (some "/conf.json".toList)).runOn sloppyWorkspace =
        (.ok settings, s₁) ∧ s₁.volume = sloppyWorkspace.volume ∧
      s₁.faults = sloppyWorkspace.faults ∧ (Action.encodeParts .utf8
        (Json.writable (Json.pieces 0 (Store.payload settings))).1).1 = none := by
    unfold settle
    rw [Action.runOn_bind_of_ok hload]
    exact ⟨_, _, rfl, rfl, rfl, by decide +kernel⟩
  obtain ⟨s₂, hparent, hsame⟩ : ∃ s₂, (Action.ensureParent "/conf.json".toList).runOn s₁ =
      (.ok (), s₂) ∧ sloppyWorkspace.SameFiles s₂ := by
    have hmade : ((Action.ensureParent "/conf.json".toList).runOn sloppyWorkspace).1 = .ok () := by
      cbv
    have hkept : sloppyWorkspace.SameFiles
        ((Action.ensureParent "/conf.json".toList).runOn sloppyWorkspace).2 :=
      ⟨by cbv, by cbv⟩
    obtain ⟨hresult, hsame⟩ := Action.seesFiles_ensureParent "/conf.json".toList sloppyWorkspace s₁
      ⟨hvolume, hfaults⟩
    exact ⟨_, Prod.ext (hresult.trans hmade) rfl, hkept.trans hsame⟩
  have hsound : sloppyWorkspace.volume.Sound := by decide
  obtain ⟨v, hopen⟩ : ∃ v, s₂.volume.write "/conf.json".toList [] = .ok v := by
    rw [hsame.volume]
    exact ⟨_, by cbv⟩
  have hfill (content : Bytes) : ∃ w, v.write "/conf.json".toList content = .ok w :=
    (Volume.Sound.exists_write_again (hsame.volume ▸ hsound) hopen content).imp fun _ h => h.1
  obtain ⟨r, hstore⟩ := Store.exists_runOn_save (storable_of_settle hsettle) (htarget s₁) hparent
    (by rw [hsame.faults]; rfl) husable hencode hopen hfill
  obtain ⟨⟨s', hrun⟩, hwritten⟩ := Stages.resolve ⟨hfound, hsettle, hstore⟩ rfl
  have hlater : Options.OnlyReads { sloppyOptions with
      sourceExtension := none, errorLog := false, saveConfig := false } sloppyOptions :=
    ⟨rfl, rfl, rfl, rfl⟩
  have hagain := resolve_of_saved (t := { s' with faults := [] }) hsound rfl hrun hwritten hlater
    ⟨rfl, rfl, id⟩ rfl rfl
  exact ⟨_, _, _, s', _, { s' with faults := [] }, _, _, hsound, rfl, hrun, hwritten, hlater, rfl,
    hagain.1⟩

end Inlay.Program
