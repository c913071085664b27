import Inlay.Proofs.Settings.Saved
import Mathlib

/-!
# Loading from any file

Three faults of a file end the loading: bytes that are no text, an integer with too many digits, and
lists or tables that are nested too deep (`exists_stopped_load`). Of every other file, whatever it
holds and whether it can be read, loading makes settings under the usual keys, each as the file sets
it or as usual (`load_gives`).
-/

namespace Inlay.Store

open Inlay.Action Inlay.Setting

/-! ### What a file says -/

/-- The settings in a table: under their own key, if that holds a table, or all of it. -/
def settingsOf? (file : Table) : Option Table :=
  match file.get? "settings" with
  | none => some file
  | some (.table settings) => some settings
  | some _ => none

/-- The usual settings, each with the value that is given for it, if there is one. -/
structure Filled (given : Option Table) (t : Table) : Prop where
  keys : t.keys = defaults.keys
  get? : ∀ key usual, (key, usual) ∈ defaults →
    t.get? key = some ((given.bind (·.get? key)).getD usual)

/-! ### Merging -/

theorem filled_defaults : Filled none defaults where
  keys := rfl
  get? _ _ h := Table.get?_of_mem nodup_keys_defaults h

theorem filled_update {given : Table} (h : given.keys.Nodup) :
    Filled (some given)
      (defaults.update (given.filter fun (key, _) => defaults.keys.contains key)) := by
  have hsub : (given.filter fun (key, _) => defaults.keys.contains key).Sublist given :=
    List.filter_sublist
  have hn : (Table.keys (given.filter fun (key, _) => defaults.keys.contains key)).Nodup :=
    h.sublist (hsub.map _)
  refine ⟨Table.keys_update fun key hkey => ?_, fun key usual husual => ?_⟩
  · obtain ⟨e, he, rfl⟩ := List.mem_map.1 hkey
    simpa using (List.mem_filter.1 he).2
  · have hknown : key ∈ defaults.keys := List.mem_map_of_mem husual
    cases hg : given.get? key with
    | none =>
      have hnot : key ∉ Table.keys (given.filter fun (key, _) => defaults.keys.contains key) :=
        fun hm => by
          obtain ⟨v, hv⟩ := Table.mem_keys_iff.1 ((hsub.map _).subset hm)
          rw [hg] at hv
          simp at hv
      rw [Table.get?_update_of_not_mem hnot]
      simpa [hg] using Table.get?_of_mem nodup_keys_defaults husual
    | some v =>
      obtain ⟨before, after, hsplit, _⟩ := List.lookup_eq_some_iff.1 hg
      have hm : (key, v) ∈ given.filter fun (key, _) => defaults.keys.contains key :=
        List.mem_filter.2 ⟨by simp [hsplit], by simpa using hknown⟩
      rw [Table.get?_update hn (List.mem_map_of_mem hm), Table.get?_of_mem hn hm]
      simp [hg]

theorem filled_merge {file : Table} (h : (Value.table file).Built) :
    Filled (settingsOf? file) (merge file) := by
  unfold settingsOf? merge settingsIn
  cases hg : file.get? "settings" with
  | none => exact filled_update h.nodup_keys
  | some v =>
    have hv := h.of_get? hg
    cases v with
    | table settings => exact filled_update hv.nodup_keys
    | null | bool _ | int _ | real _ | text _ | bytes _ | list _ => exact filled_defaults

/-- Settings as usual, or as they are given, and the volume as it was. -/
def Loads (given : Option Table) (s : Workspace) (a : Action Table) : Prop :=
  ∃ t u, a.runOn s = (.ok t, u) ∧ u.volume = s.volume ∧ Filled given t

theorem loads_giveUp (problem : String) (s : Workspace) : Loads none s (giveUp problem) :=
  ⟨defaults, _, rfl, s.logged_volume _, filled_defaults⟩

/-! ### What can be read -/

/-- The content of a file, if it can be read. -/
def content? (file : Path) (s : Workspace) : Option Bytes :=
  match (planned .loadSettings file s.faults).1 with
  | some _ => none
  | none => (s.volume.read file).toOption

theorem hasEntry_of_content? {file : Path} {s : Workspace} {content : Bytes}
    (h : content? file s = some content) : s.volume.hasEntry file = true := by
  unfold content? at h
  split at h
  · simp at h
  · cases hread : s.volume.read file with
    | error e => simp [hread, Except.toOption] at h
    | ok found => exact Volume.hasEntry_of_read hread

variable [Host]

/-- The settings that a file gives, if it is a table that can be read. -/
def given? (content : Bytes) : Option Table :=
  match Utf8.decode content with
  | .error _ => none
  | .ok text =>
    match Json.read Host.readDepth (unifyLines text) with
    | .ok (.table file) => settingsOf? file
    | _ => none

/-- What ends the loading of a file, if anything does. -/
def stop? (content : Bytes) : Option Failure :=
  match Utf8.decode content with
  | .error f => some (.codec f)
  | .ok text =>
    match Json.read Host.readDepth (unifyLines text) with
    | .error (.lacks ..) => none
    | .error f => some (.unreadable f)
    | .ok _ => none

/-- What reading a file gives comes from its content, or is an error of the file system. -/
theorem exists_of_readFile {file : Path} (hu : Path.IsUsable file) (s : Workspace) :
    ∃ t, t.volume = s.volume ∧
      ((∃ content, content? file s = some content ∧
          (readFile file).runOn s = ((Utf8.decode content).mapError .codec, t)) ∨
        content? file s = none ∧ ∃ e, (readFile file).runOn s = (.error (.os e), t)) := by
  unfold content? readFile
  cases hp : (planned .loadSettings file s.faults).1 with
  | some errno =>
    have hguard : (guard .loadSettings file).runOn s = (.error (.os (.of errno file)),
        { s with faults := (planned .loadSettings file s.faults).2 }) := by
      rw [runOn_guard, hp]
    exact ⟨{ s with faults := (planned .loadSettings file s.faults).2 }, rfl,
      Or.inr ⟨rfl, _, runOn_bind_of_error hguard⟩⟩
  | none =>
    refine ⟨s, rfl, ?_⟩
    rw [runOn_bind_of_ok (runOn_guard_of_none hp)]
    unfold readText
    rw [runOn_bind_of_ok (runOn_checkName Encoding.isName_default s)]
    have hbytes := runOn_readBytes hu s
    cases hread : s.volume.read file with
    | error e =>
      rw [hread] at hbytes
      exact Or.inr ⟨rfl, _, runOn_bind_of_error hbytes⟩
    | ok content =>
      rw [hread] at hbytes
      refine Or.inl ⟨content, rfl, ?_⟩
      have hdecode : Codec.utf8.decode content = Utf8.decode content := rfl
      rw [runOn_bind_of_ok hbytes, runOn_bind_of_ok (runOn_codec_default s), hdecode]
      cases Utf8.decode content <;> rfl

/-! ### After reading -/

/-- What loading does with a file that it has tried to read. -/
def afterReading (file : Path) : Except Failure Text → Action Table
  | .ok text => ofText file (unifyLines text)
  | .error (.os e) => giveUp s!"Configuration file '{str file}' unreadable ({e.message})"
  | .error f => throw f

theorem runOn_load_eq {path : Option Path} {file : Path} {s : Workspace}
    (htarget : (target path).runOn s = (.ok file, s)) :
    (load path).runOn s =
      if s.volume.hasEntry file then
        (afterReading file ((readFile file).runOn s).1).runOn ((readFile file).runOn s).2
      else (.ok defaults, s.logged ⟨Level.debug, logger,
        s!"No configuration file at '{str file}'. Using defaults."⟩) := by
  unfold load
  rw [runOn_bind_of_ok htarget, runOn_bind_of_ok (runOn_get s)]
  cases s.volume.hasEntry file with
  | false => rfl
  | true =>
    simp only [Bool.not_true, Bool.false_eq_true, if_false, if_true]
    rw [runOn_bind_of_ok (runOn_attempt _ s)]
    cases ((readFile file).runOn s).1 with
    | ok text => rfl
    | error f => cases f <;> rfl

theorem runOn_afterReading_of_stop {content : Bytes} {f : Failure} (h : stop? content = some f)
    (file : Path) (s : Workspace) :
    (afterReading file ((Utf8.decode content).mapError .codec)).runOn s = (.error f, s) := by
  unfold stop? at h
  cases hdecode : Utf8.decode content with
  | error fault =>
    rw [hdecode] at h
    obtain rfl := Option.some.inj h
    rfl
  | ok text =>
    simp only [hdecode] at h
    simp only [Except.mapError, afterReading, ofText]
    cases hread : Json.read Host.readDepth (unifyLines text) with
    | ok v => simp [hread] at h
    | error fault =>
      rw [hread] at h
      cases fault with
      | lacks reason rest => simp at h
      | hugeInteger digits | tooDeep isTable =>
        obtain rfl := Option.some.inj h
        rfl

theorem loads_afterReading {content : Bytes} (h : stop? content = none) (file : Path)
    (s : Workspace) :
    Loads (given? content) s (afterReading file ((Utf8.decode content).mapError .codec)) := by
  unfold stop? at h
  unfold given?
  cases hdecode : Utf8.decode content with
  | error fault => simp [hdecode] at h
  | ok text =>
    simp only [hdecode] at h
    simp only [Except.mapError, afterReading, ofText]
    cases hread : Json.read Host.readDepth (unifyLines text) with
    | error fault =>
      cases fault with
      | lacks reason rest => exact loads_giveUp _ s
      | hugeInteger digits | tooDeep isTable => simp [hread] at h
    | ok v =>
      cases v with
      | table file => exact ⟨_, s, rfl, rfl, filled_merge (Json.built_of_read hread)⟩
      | null | bool _ | int _ | real _ | text _ | bytes _ | list _ => exact loads_giveUp _ s

/-! ### Loading -/

theorem runOn_load_of_stop {path : Option Path} {file : Path} {s : Workspace} {content : Bytes}
    {f : Failure} (htarget : (target path).runOn s = (.ok file, s)) (hu : Path.IsUsable file)
    (h : content? file s = some content) (hstop : stop? content = some f) :
    ∃ u, (load path).runOn s = (.error f, u) ∧ u.volume = s.volume := by
  obtain ⟨t, hvolume, ⟨found, hfound, hrun⟩ | ⟨hnone, _⟩⟩ := exists_of_readFile hu s
  · obtain rfl : content = found := Option.some.inj (h.symm.trans hfound)
    refine ⟨t, ?_, hvolume⟩
    rw [runOn_load_eq htarget, if_pos (hasEntry_of_content? h), hrun,
      runOn_afterReading_of_stop hstop]
  · simp [h] at hnone

theorem Sound.isUsable_of_hasEntry {v : Volume} (hs : v.Sound) {path : Path}
    (h : v.hasEntry path = true) : Path.IsUsable path := by
  cases hstat : v.stat path with
  | error e => simp [Volume.hasEntry, hstat, Except.toOption] at h
  | ok entry => exact hs.isUsable_of_stat hstat

/-- Loading never fails on a file, except for bytes that are no text, for an integer with too many
digits, and for lists or tables that are nested too deep: then it always does. Otherwise it gives
exactly the usual settings, each as the file sets it if the file is a table that can be read, and as
usual if not, whatever keeps it from being read. -/
theorem load_gives {path : Option Path} {file : Path} {s : Workspace} (hs : s.volume.Sound)
    (htarget : (target path).runOn s = (.ok file, s)) :
    (∀ f, (content? file s).bind stop? = some f →
      ∃ u, (load path).runOn s = (.error f, u) ∧ u.volume = s.volume) ∧
    ((content? file s).bind stop? = none →
      Loads ((content? file s).bind given?) s (load path)) := by
  constructor
  · intro f hf
    obtain ⟨content, hcontent, hstop⟩ := Option.bind_eq_some_iff.1 hf
    have hu := Sound.isUsable_of_hasEntry hs (hasEntry_of_content? hcontent)
    exact runOn_load_of_stop htarget hu hcontent hstop
  · intro hnone
    unfold Loads
    rw [runOn_load_eq htarget]
    split
    · next hentry =>
      have hu := Sound.isUsable_of_hasEntry hs hentry
      obtain ⟨t, hvolume, ⟨content, hcontent, hrun⟩ | ⟨hfailed, e, hrun⟩⟩ := exists_of_readFile hu s
      · rw [hcontent, Option.bind_some] at hnone ⊢
        rw [hrun, ← hvolume]
        exact loads_afterReading hnone file t
      · rw [hfailed, Option.bind_none, hrun, ← hvolume]
        exact loads_giveUp _ t
    · next hentry =>
      have hfailed : content? file s = none := by
        cases hc : content? file s with
        | none => rfl
        | some content => exact absurd (hasEntry_of_content? hc) hentry
      rw [hfailed, Option.bind_none]
      exact ⟨_, _, rfl, s.logged_volume _, filled_defaults⟩

/-! ### Files that end the loading -/

/-- An integer with too many digits, whatever its value. -/
theorem read_of_ones (limit : Nat) {n : Nat} (h : digitLimit < n + 1) :
    Json.read limit (List.replicate (n + 1) '1') = .error (.hugeInteger (n + 1)) := by
  rw [List.replicate_succ]
  have hskip : Json.skip ('1' :: List.replicate n '1') = '1' :: List.replicate n '1' := rfl
  have hwhole : Json.whole ('1' :: List.replicate n '1') =
      ('1' :: List.replicate n '1', []) := by
    simp [Json.whole, Binary64.digitRun]
  have hnumber : Json.number ('1' :: List.replicate n '1') = .error (.hugeInteger (n + 1)) := by
    simp [Json.number, hwhole, Json.fraction, Json.exponent, h]
  have hscalar : Json.scalar ('1' :: List.replicate n '1') = .error (.hugeInteger (n + 1)) := by
    have hname := Json.find?_names_of_digit (d := '1') rfl false (List.replicate n '1')
    rw [if_neg (by decide), List.nil_append] at hname
    rw [Json.scalar, hname]
    exact hnumber
  simp only [Json.read, hskip,
    Json.value_of_scalar (show '1' ≠ '"' by decide) (by decide) (by decide), hscalar]
  rfl

theorem value_of_brackets (limit : Nat) {n fuel : Nat} (h : limit < n) (hfuel : 2 * n ≤ fuel) :
    Json.value fuel limit (List.replicate n '[') = .error (.tooDeep false) := by
  induction limit generalizing n fuel with
  | zero =>
    obtain ⟨n, rfl⟩ := Nat.exists_eq_add_of_le' (show 1 ≤ n by omega)
    obtain ⟨fuel, rfl⟩ := Nat.exists_eq_add_of_le' (show 1 ≤ fuel by omega)
    rw [List.replicate_succ, Json.value]
  | succ limit ih =>
    obtain ⟨n, rfl⟩ := Nat.exists_eq_add_of_le' (show 2 ≤ n by omega)
    obtain ⟨fuel, rfl⟩ := Nat.exists_eq_add_of_le' (show 2 ≤ fuel by omega)
    have hitem : Json.value fuel limit (List.replicate (n + 1) '[') = .error (.tooDeep false) :=
      ih (by omega) (by omega)
    have hskip : Json.skip (List.replicate (n + 1) '[') = List.replicate (n + 1) '[' := rfl
    have hitems : Json.items (fuel + 1) limit (List.replicate (n + 1) '[') =
        .error (.tooDeep false) := by
      rw [Json.items, hitem]
      rfl
    rw [List.replicate_succ, Json.value, hskip, List.replicate_succ]
    rw [List.replicate_succ] at hitems
    show (Json.items (fuel + 1) limit ('[' :: List.replicate n '[')).map _ = _
    rw [hitems]
    rfl

theorem read_of_brackets (limit : Nat) :
    Json.read limit (List.replicate (limit + 1) '[') = .error (.tooDeep false) := by
  have hskip : Json.skip (List.replicate (limit + 1) '[') = List.replicate (limit + 1) '[' := rfl
  have hvalue : Json.value (2 * (List.replicate (limit + 1) '[').length + 1) limit
      (List.replicate (limit + 1) '[') = .error (.tooDeep false) :=
    value_of_brackets limit (Nat.lt_succ_self limit) (by rw [List.length_replicate]; omega)
  have hmark : ¬ (List.replicate (limit + 1) '[').head? = some (Char.ofNat 0xfeff) := by
    rw [List.replicate_succ, List.head?_cons]
    decide
  unfold Json.read
  rw [hskip, hvalue, if_neg hmark]
  rfl

theorem stop?_of_ones {n : Nat} (h : digitLimit < n + 1) :
    stop? (Utf8.encode (List.replicate (n + 1) '1')) =
      some (.unreadable (.hugeInteger (n + 1))) := by
  have hplain : '\r' ∉ List.replicate (n + 1) '1' := by simp
  simp only [stop?, Utf8.decode_encode, unifyLines_of_unreturned hplain, read_of_ones _ h]

theorem stop?_of_brackets :
    stop? (Utf8.encode (List.replicate (Host.readDepth + 1) '[')) =
      some (.unreadable (.tooDeep false)) := by
  have hplain : '\r' ∉ List.replicate (Host.readDepth + 1) '[' := by simp
  simp only [stop?, Utf8.decode_encode, unifyLines_of_unreturned hplain, read_of_brackets]

end Inlay.Store

/-! ### Examples of files -/

namespace Inlay.Store

open Inlay.Standard Inlay.Action Inlay.Setting

def holdingFile (content : Bytes) : Workspace :=
  .holding [(["c.json".toList], .file content)]

theorem runOn_target_holdingFile (content : Bytes) :
    (target (some "c.json".toList)).runOn (holdingFile content) =
      (.ok "c.json".toList, holdingFile content) := rfl

theorem content?_holdingFile (content : Bytes) :
    content? "c.json".toList (holdingFile content) = some content := by
  cbv

/-- A setting under its own key, and a second one beside it. -/
def halfSet : Text :=
  "\x7b\"settings\": \x7b\"fail_fast\": 1\x7d, \"compiler\": \"tea\"\x7d".toList

theorem load_gives_of_halfSet :
    ∃ t u, (load (some "c.json".toList)).runOn (holdingFile (Utf8.encode halfSet)) = (.ok t, u) ∧
      t.keys = defaults.keys ∧ t.get? failFast = some (.int 1) ∧
      t.get? Setting.compiler = defaults.get? Setting.compiler := by
  have hcontent := content?_holdingFile (Utf8.encode halfSet)
  have hsound : (holdingFile (Utf8.encode halfSet)).volume.Sound := by decide
  have hfine : stop? (Utf8.encode halfSet) = none := by cbv
  have hgiven : given? (Utf8.encode halfSet) = some [(failFast, .int 1)] := by cbv
  obtain ⟨t, u, hload, _, hfilled⟩ :=
    (load_gives hsound (runOn_target_holdingFile (Utf8.encode halfSet))).2
      (by rw [hcontent, Option.bind_some, hfine])
  rw [hcontent, Option.bind_some, hgiven] at hfilled
  exact ⟨t, u, hload, hfilled.keys, hfilled.get? failFast (.bool false) (by simp [defaults]),
    hfilled.get? Setting.compiler _ (by simp [defaults])⟩

/-- A byte that starts no character, an integer with one digit too many, and lists that are nested
too deep. -/
theorem exists_stopped_load :
    (∃ s f, (load (some "c.json".toList)).runOn (holdingFile [0xff]) = (.error (.codec f), s)) ∧
      (∃ s n, (load (some "c.json".toList)).runOn
        (holdingFile (Utf8.encode (List.replicate (digitLimit + 1) '1'))) =
          (.error (.unreadable (.hugeInteger n)), s)) ∧
      ∃ s, (load (some "c.json".toList)).runOn
        (holdingFile (Utf8.encode (List.replicate (Host.readDepth + 1) '['))) =
          (.error (.unreadable (.tooDeep false)), s) := by
  have stops {content : Bytes} {f : Failure} (h : stop? content = some f) :
      ∃ s, (load (some "c.json".toList)).runOn (holdingFile content) = (.error f, s) := by
    have hu : Path.IsUsable "c.json".toList := by decide
    obtain ⟨s, hs, _⟩ := runOn_load_of_stop (runOn_target_holdingFile content) hu
      (content?_holdingFile content) h
    exact ⟨s, hs⟩
  obtain ⟨s₁, h₁⟩ := stops
    (show stop? [0xff] = some (.codec (.undecodable "utf-8" 0xff 0 1 .invalidStart)) by cbv)
  obtain ⟨s₂, h₂⟩ := stops (stop?_of_ones (Nat.lt_succ_self digitLimit))
  exact ⟨⟨s₁, _, h₁⟩, ⟨s₂, _, h₂⟩, stops stop?_of_brackets⟩

end Inlay.Store
