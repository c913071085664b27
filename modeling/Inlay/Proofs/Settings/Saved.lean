import Inlay.Proofs.Codec.Utf8
import Inlay.Proofs.Json.Bounded
import Inlay.Proofs.Json.RoundTrip
import Inlay.Proofs.Settings.Fixed
import Inlay.Proofs.Workspace.Surroundings
import Inlay.Settings.Store

/-!
# Settings that are kept

What is saved is loaded again (`load_of_read`, `read_of_save`): the known settings are written
under their usual keys, in their usual order, as text that is read back. What is loaded may be
saved again, whatever file it comes from (`loadable_of_load`).
-/

namespace Inlay

/-! ### Files as text -/

theorem Volume.hasEntry_of_read {v : Volume} {path : Path} {content : Bytes}
    (h : v.read path = .ok content) : v.hasEntry path = true := by
  unfold Volume.read at h
  rw [hasEntry]
  split at h
  · simp at h
  · next hs =>
    rw [hs]
    rfl
  · simp at h

namespace Action

section
variable [Alphabet]

theorem encode_utf8 {text : Text} {content : Bytes} (h : Codec.utf8.encode text = .ok content) :
    content = Utf8.encode text := by
  rw [Codec.utf8, Codec.ofUnicode] at h
  dsimp only at h
  split at h
  · simp at h
  · exact (Except.ok.inj h).symm

/-- Parts that can all be encoded come to the text that they make up. -/
theorem encodeParts_utf8 {parts : List Text} (h : (encodeParts .utf8 parts).1 = none) :
    (encodeParts .utf8 parts).2 = Utf8.encode parts.flatten := by
  induction parts with
  | nil => rfl
  | cons part rest ih =>
    cases hp : Codec.utf8.encode part with
    | error f => simp [encodeParts, hp] at h
    | ok bytes =>
      have hrest : (encodeParts .utf8 rest).1 = none := by simpa only [encodeParts, hp] using h
      simp only [encodeParts, hp, encode_utf8 hp, ih hrest, List.flatten_cons]
      exact List.flatMap_append.symm

end

variable [Host]

theorem runOn_codec_default (s : Workspace) :
    (Action.codec Setting.defaultEncoding).runOn s = (.ok .utf8, s) :=
  runOn_codec Host.utf8 s

theorem runOn_readText {s : Workspace} {path : Path} (hu : Path.IsUsable path) {text : Text}
    (h : s.volume.read path = .ok (Utf8.encode text)) :
    (readText path Setting.defaultEncoding).runOn s = (.ok text, s) := by
  have hbytes : (readBytes path).runOn s = (.ok (Utf8.encode text), s) := by
    rw [runOn_readBytes hu, h]
  have hdecode : Codec.utf8.decode (Utf8.encode text) = .ok text := Utf8.decode_encode text
  unfold readText
  rw [runOn_bind_of_ok (runOn_checkName Encoding.isName_default s), runOn_bind_of_ok hbytes,
    runOn_bind_of_ok (runOn_codec_default s), hdecode]
  rfl

theorem read_of_writeParts {s t : Workspace} (hs : s.volume.Sound) {path : Path}
    {parts : List Text} (h : (writeParts path parts).runOn s = (.ok (), t)) :
    Path.IsUsable path ∧ t.volume.read path = .ok (Utf8.encode parts.flatten) := by
  unfold writeParts at h
  obtain ⟨_, s₁, hempty, h⟩ := exists_of_runOn_bind h
  obtain ⟨hu, v, hv, rfl⟩ := of_runOn_onVolume hempty
  dsimp only at h
  obtain ⟨_, s₂, hfull, h⟩ := exists_of_runOn_bind h
  obtain ⟨_, w, hw, rfl⟩ := of_runOn_onVolume hfull
  split at h
  · simp at h
  · next hnone =>
    obtain ⟨_, rfl⟩ := Prod.mk.inj h
    have hread := ((Volume.holds_write hu hv).sound hs).read_of_write hw
    exact ⟨hu, hread.trans (congrArg Except.ok (encodeParts_utf8 hnone))⟩

end Action

namespace Store

theorem unifyLines_of_unreturned {t : Text} (h : '\r' ∉ t) : unifyLines t = t := by
  fun_induction unifyLines t with
  | case1 => rfl
  | case2 => simp at h
  | case3 => simp at h
  | case4 c rest _ _ ih =>
    rw [ih fun hm => h (List.mem_cons_of_mem _ hm)]

/-- The file that settings are kept in, if a file is given or not, is found again. -/
theorem repeats_target [Host] (path : Option Path) : (target path).Repeats := by
  unfold target
  cases path.filter (!·.isEmpty) with
  | none => exact Home.repeats_settingsFile
  | some path => exact Action.repeats_pure path

end Store

/-! ### What can be loaded -/

namespace Setting

/-- Exactly the known settings; a count has no more digits than can be read. -/
structure Loadable (t : Table) : Prop where
  keys : t.keys = defaults.keys
  bounded : ∀ n, t.get? statRetries = some (.int n) → n.natAbs < digitBound

theorem Loadable.nodup {t : Table} (h : Loadable t) : t.keys.Nodup := by
  rw [h.keys]
  exact nodup_keys_defaults

theorem Loadable.update_defaults {t : Table} (h : Loadable t) : defaults.update t = t :=
  Table.update_of_keys_eq nodup_keys_defaults h.keys

end Setting

open Setting

namespace Store

theorem filled_eq {t : Table} (h : Loadable t) :
    (defaults.map fun (key, value) => (key, (t.get? key).getD value)) = t := by
  have hkeys : Table.keys (defaults.map fun (key, value) => (key, (t.get? key).getD value)) =
      t.keys := by
    rw [h.keys, Table.keys, List.map_map]
    rfl
  refine Table.eq_of_get? h.nodup hkeys fun key hkey => ?_
  obtain ⟨value, hvalue⟩ := Table.mem_keys_iff.1 hkey
  obtain ⟨usual, husual⟩ := Table.mem_keys_iff.1 (h.keys ▸ hkey)
  rw [Table.get?_map fun key value => (t.get? key).getD value, husual, hvalue]
  rfl

theorem payload_eq {t : Table} (h : Loadable t) :
    payload t = .table [("version", .text version), ("settings", .table t)] := by
  rw [payload, filled_eq h]

theorem known_eq {t : Table} (h : Loadable t) :
    t.filter (fun (key, _) => defaults.keys.contains key) = t := by
  refine List.filter_eq_self.2 fun e he => ?_
  have hm : e.1 ∈ t.keys := List.mem_map_of_mem he
  rw [h.keys] at hm
  simpa using hm

theorem merge_payload {t : Table} (h : Loadable t) :
    merge [("version", .text version), ("settings", .table t)] = t := by
  refine (congrArg defaults.update (known_eq h)).trans ?_
  rw [h.update_defaults]

theorem loadable_defaults : Loadable defaults where
  keys := rfl
  bounded n hn := by
    have husual : defaults.get? statRetries = some (.int defaultRetries) := rfl
    rw [husual] at hn
    obtain rfl := Value.int.inj (Option.some.inj hn)
    exact two_lt_digitBound

theorem bounded_settingsIn {content : Table} (h : Value.BoundedEntries content) :
    (settingsIn content).Bounded := by
  unfold settingsIn
  cases hg : content.get? "settings" with
  | none => exact h
  | some value => exact Value.bounded_of_get? h hg

theorem loadable_merge {content : Table} (h : Value.BoundedEntries content) :
    Loadable (merge content) := by
  have hin := bounded_settingsIn h
  unfold merge
  split
  · next given hgiven =>
    rw [hgiven] at hin
    refine ⟨Table.keys_update fun key hkey => ?_, fun n hn => ?_⟩
    · obtain ⟨e, he, rfl⟩ := List.mem_map.1 hkey
      simpa using (List.mem_filter.1 he).2
    · rcases Table.get?_update_cases hn with husual | hm
      · exact loadable_defaults.bounded n husual
      · exact Value.boundedEntries_iff.1 hin _ (List.mem_filter.1 hm).1
  · exact loadable_defaults

theorem loadable_of_giveUp {problem : String} {t : Table} {s s' : Workspace}
    (h : (giveUp problem).runOn s = (.ok t, s')) : Loadable t := by
  unfold giveUp at h
  rw [Action.runOn_bind_of_ok (Action.runOn_log ..), Action.runOn_pure] at h
  obtain rfl := Except.ok.inj (Prod.mk.inj h).1
  exact loadable_defaults

end Store

/-! ### What can be saved -/

variable [Host]

namespace Setting

structure Storable (t : Table) : Prop extends Loadable t where
  wellFormed : WellFormed t

theorem Storable.plain {t : Table} (h : Storable t) {key : String} {value : Value}
    (hg : t.get? key = some value) (limit : Nat) : value.Plain limit := by
  have hk : key ∈ defaults.keys := h.keys ▸ Table.mem_keys_iff.2 ⟨value, hg⟩
  have hgiven {value' : Value} (hg' : t.get? key = some value') : value' = value :=
    Option.some.inj (hg'.symm.trans hg)
  rcases h.wellFormed.value_cases hk with ⟨x, hx⟩ | ⟨b, hb⟩ | ⟨rfl, n, hn, _⟩
  · rw [← hgiven hx]
    simp [Value.Plain]
  · rw [← hgiven hb]
    simp [Value.Plain]
  · rw [← hgiven hn, Value.Plain]
    exact h.bounded n hn

end Setting

namespace Store

/-! ### Writing and reading the known settings -/

theorem plain_payload {t : Table} (h : Storable t) : (payload t).Plain Host.readDepth := by
  obtain ⟨more, hmore⟩ := Nat.exists_eq_add_of_le Host.reads
  rw [payload_eq h.toLoadable, hmore, Nat.add_comm]
  have hkeys : (["version", "settings"] : List String).Nodup := by decide
  have hentries : Value.PlainEntries more t := Value.plainEntries_iff.2 fun e he =>
    h.plain (Table.get?_of_mem h.nodup he) more
  simp only [Value.Plain, Value.PlainEntries, and_true, true_and]
  exact ⟨hkeys, h.nodup, hentries⟩

/-- The text that settings are saved as. -/
def spelled (t : Table) : Text := (Json.print (payload t)).1

theorem ofText_spelled {t : Table} (h : Storable t) (path : Path) :
    ofText path (unifyLines (spelled t)) = pure t := by
  obtain ⟨_, hreturn, hread⟩ := Json.read_print (plain_payload h)
  rw [spelled, unifyLines_of_unreturned hreturn, ofText, hread, payload_eq h.toLoadable]
  show pure (merge _) = _
  rw [merge_payload h.toLoadable]

/-- Loading from a file that can be read in the usual encoding, whatever is in it. -/
theorem runOn_load {path : Option Path} {file : Path} {s : Workspace} {text : Text}
    (htarget : (target path).runOn s = (.ok file, s)) (hu : Path.IsUsable file)
    (hquiet : (planned .loadSettings file s.faults).1 = none)
    (hread : s.volume.read file = .ok (Utf8.encode text)) :
    (load path).runOn s = (ofText file (unifyLines text)).runOn s := by
  have hfile : (readFile file).runOn s = (.ok text, s) := by
    unfold readFile
    rw [Action.runOn_bind_of_ok (Action.runOn_guard_of_none hquiet), Action.runOn_readText hu hread]
  have hattempt : (Action.attempt (readFile file)).runOn s = (.ok (.ok text), s) := by
    rw [Action.runOn_attempt, hfile]
  unfold load
  rw [Action.runOn_bind_of_ok htarget, Action.runOn_bind_of_ok (Action.runOn_get s)]
  simp only [Volume.hasEntry_of_read hread, Bool.not_true, Bool.false_eq_true, if_false]
  rw [Action.runOn_bind_of_ok hattempt]

theorem load_of_read {t : Table} (h : Storable t) {path : Option Path} {file : Path}
    {s : Workspace} (htarget : (target path).runOn s = (.ok file, s)) (hu : Path.IsUsable file)
    (hquiet : (planned .loadSettings file s.faults).1 = none)
    (hread : s.volume.read file = .ok (Utf8.encode (spelled t))) :
    (load path).runOn s = (.ok t, s) := by
  rw [runOn_load htarget hu hquiet hread, ofText_spelled h, Action.runOn_pure]

/-- Settings that can be read back are written whole, as far as their texts can be encoded. -/
theorem exists_runOn_save {t : Table} (h : Storable t) {path : Option Path} {file : Path}
    {s s₁ : Workspace} (htarget : (target path).runOn s = (.ok file, s))
    (hparent : (Action.ensureParent file).runOn s = (.ok (), s₁))
    (hquiet : (planned .saveSettings file s₁.faults).1 = none) (hu : Path.IsUsable file)
    (hencode : (Action.encodeParts .utf8 (Json.writable (Json.pieces 0 (payload t))).1).1 = none)
    {v : Volume} (hopen : s₁.volume.write file [] = .ok v)
    (hfill : ∀ content, ∃ w, v.write file content = .ok w) :
    ∃ r, (save t path).runOn s = (.ok file, r) := by
  obtain ⟨w, hw⟩ := hfill
    (Action.encodeParts .utf8 (Json.writable (Json.pieces 0 (payload t))).1).2
  have hstop : (Json.writable (Json.pieces 0 (payload t))).2 = none :=
    (Json.read_print (plain_payload h)).1
  have hwrite : (Action.writeParts file (Json.writable (Json.pieces 0 (payload t))).1).runOn s₁ =
      (.ok (), { s₁ with volume := w }) := by
    unfold Action.writeParts
    rw [Action.runOn_bind_of_ok (t := { s₁ with volume := v }) (x := ())
      (by rw [Action.runOn_onVolume hu, hopen])]
    dsimp only
    rw [Action.runOn_bind_of_ok (t := { s₁ with volume := w }) (x := ())
      (by rw [Action.runOn_onVolume hu, hw]), hencode, Action.runOn_pure]
  unfold save
  rw [Action.runOn_bind_of_ok htarget, Action.runOn_bind_of_ok hparent,
    Action.runOn_bind_of_ok (Action.runOn_guard_of_none hquiet)]
  dsimp only
  rw [Action.runOn_bind_of_ok hwrite, hstop]
  exact ⟨_, rfl⟩

/-- What has been written is what was to be saved, at the place that the settings have. -/
theorem read_of_save {t : Table} {path : Option Path} {file : Path} {s s' : Workspace}
    (hs : s.volume.Sound) (h : (save t path).runOn s = (.ok file, s')) :
    (target path).runOn s = (.ok file, s) ∧ Path.IsUsable file ∧
      s'.volume.read file = .ok (Utf8.encode (spelled t)) := by
  unfold save at h
  obtain ⟨found, s₀, htarget, hfound⟩ := Action.exists_of_runOn_bind h
  obtain ⟨rfl, -⟩ := repeats_target path s s found s₀ ⟨rfl, rfl, id⟩ htarget
  obtain ⟨_, s₁, hparent, hmade⟩ := Action.exists_of_runOn_bind hfound
  have hs₁ := ((Action.abides_ensureParent _).of_runOn hparent).sound hs
  obtain ⟨_, s₂, hguard, hallowed⟩ := Action.exists_of_runOn_bind hmade
  obtain ⟨_, rfl⟩ := Action.of_runOn_guard hguard
  dsimp only at hallowed
  obtain ⟨_, s₃, hwrite, hend⟩ := Action.exists_of_runOn_bind hallowed
  obtain ⟨hu, hread⟩ := Action.read_of_writeParts hs₁ hwrite
  split at hend
  · simp at hend
  · rw [Action.runOn_bind_of_ok (Action.runOn_log ..), Action.runOn_pure] at hend
    obtain ⟨hfile, rfl⟩ := Prod.mk.inj hend
    obtain rfl := Except.ok.inj hfile
    refine ⟨htarget, hu, ?_⟩
    rw [Workspace.logged_volume]
    exact hread

theorem abides_target (path : Option Path) : (target path).Abides := fun s => by
  unfold target
  cases path.filter (!·.isEmpty) with
  | none =>
    exact (Action.abides_bind (Action.abides_bind Action.abides_get fun s =>
      (Action.eq_absolute _).abides) fun _ => Action.abides_pure _) s
  | some path => exact .refl s

theorem abides_save (t : Table) (path : Option Path) : (save t path).Abides := by
  unfold save
  refine Action.abides_bind (abides_target path) fun file =>
    Action.abides_bind (Action.abides_ensureParent file) fun _ =>
      Action.abides_bind (Action.abides_guard _ _) fun _ => ?_
  dsimp only
  refine Action.abides_bind (Action.abides_writeParts _ _) fun _ => ?_
  split
  · exact Action.abides_throw _
  · exact Action.abides_bind (Action.abides_log _ _ _) fun _ => Action.abides_pure _

/-! ### Loading -/

theorem abides_giveUp (problem : String) : (giveUp problem).Abides :=
  Action.abides_bind (Action.abides_log _ _ _) fun _ => Action.abides_pure _

theorem abides_ofText (path : Path) (text : Text) : (ofText path text).Abides := by
  unfold ofText
  split
  · exact abides_giveUp _
  · exact Action.abides_throw _
  · exact Action.abides_pure _
  · exact abides_giveUp _

theorem abides_load (path : Option Path) : (load path).Abides := by
  unfold load
  refine Action.abides_bind (abides_target path) fun file =>
    Action.abides_bind Action.abides_get fun s => ?_
  split
  · exact Action.abides_bind (Action.abides_log _ _ _) fun _ => Action.abides_pure _
  · have hread : (readFile file).Abides :=
      Action.abides_bind (Action.abides_guard _ _) fun _ => Action.abides_readText _ _
    refine Action.abides_bind (Action.abides_attempt hread) fun r => ?_
    split
    · exact abides_ofText _ _
    · exact abides_giveUp _
    · exact Action.abides_throw _

theorem loadable_of_ofText {path : Path} {text : Text} {t : Table} {s s' : Workspace}
    (h : (ofText path text).runOn s = (.ok t, s')) : Loadable t := by
  unfold ofText at h
  split at h
  · exact loadable_of_giveUp h
  · simp at h
  · next content hread =>
    obtain rfl := Except.ok.inj (Prod.mk.inj h).1
    exact loadable_merge (Json.bounded_of_read hread)
  · exact loadable_of_giveUp h

theorem loadable_of_load {path : Option Path} {t : Table} {s s' : Workspace}
    (h : (load path).runOn s = (.ok t, s')) : Loadable t := by
  unfold load at h
  obtain ⟨file, s₀, _, h⟩ := Action.exists_of_runOn_bind h
  rw [Action.runOn_bind_of_ok (Action.runOn_get s₀)] at h
  split at h
  · rw [Action.runOn_bind_of_ok (Action.runOn_log ..), Action.runOn_pure] at h
    obtain rfl := Except.ok.inj (Prod.mk.inj h).1
    exact loadable_defaults
  · obtain ⟨r, s₁, _, h⟩ := Action.exists_of_runOn_bind h
    split at h
    · exact loadable_of_ofText h
    · exact loadable_of_giveUp h
    · simp at h

end Store

end Inlay
