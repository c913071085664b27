import Inlay.Proofs.Compile.Batch
import Inlay.Proofs.Workspace.Effects
import Inlay.Proofs.Workspace.Folders

/-!
# The effect of a job

A job writes to a few places only: the folders on the way to its output, and the output itself
(`Effect.Belongs`). Its result and its effect depend on nothing but its source, the files on that
way, what stands at the end of it, and the faults, so they are the same on every volume that agrees
there (`exists_acts_toOutcome`).
-/

namespace Inlay

variable [Host]

open Inlay.Action

/-- The way of a job: from the place of its source to a name in a folder below a goal. -/
structure Route where
  origin : Place
  goal : Place
  folders : List Text
  name : Text
  proper : ∀ n ∈ folders, Path.IsName n
  usable : ∀ n ∈ folders, Path.IsUsable n
  piece : Path.IsPiece name

def Route.destination (r : Route) : Place := r.goal ++ (r.folders ++ [r.name])

/-- In a volume a job takes a route, with its output spelled from a path to the goal. -/
structure Job.Takes (job : Job) (r : Route) (root : Path) (v : Volume) : Prop where
  tree : v.Tree
  source : v.Leads job.source r.origin
  named : job.source.getLast? ≠ some '/'
  file : v.FileAt r.origin
  tidied : Path.Tidied root
  leads : v.Leads root r.goal
  goal : v.get? r.goal = some .folder
  output : job.output = Path.descend root (r.folders ++ [r.name])

/-- What matters to a route is as it was, on a volume and with faults at the beginning. -/
structure Undisturbed (plan : List PlannedFault) (v : Volume) (root : Path) (r : Route)
    (w : Volume) : Prop where
  tree : w.Tree
  persists : v.Persists w
  origin : w.get? r.origin = v.get? r.origin
  leads : ∀ lead, lead <+: r.folders → w.FileAt (r.goal ++ lead) → v.FileAt (r.goal ++ lead)
  passable : ∀ lead, lead <+: r.folders → w.get? (r.goal ++ lead) = some .folder →
    Passable plan v root r.goal lead
  destination : Path.IsName r.name → w.get? r.destination = v.get? r.destination

/-- A file can be written where the route ends, once its folders are there. -/
def Route.Free (r : Route) (v : Volume) : Prop :=
  Path.IsName r.name ∧ v.get? r.destination ≠ some .folder

/-- An effect on the way to the end of a route, where folders can be made. -/
def Effect.Belongs (plan : List PlannedFault) (v : Volume) (root : Path) (r : Route) (e : Effect) :
    Prop :=
  ∀ p entry, e p = some entry →
    (entry = .folder ∧ ∃ lead, lead <+: r.folders ∧ p = r.goal ++ lead ∧
        Passable plan v root r.goal lead) ∨
      ((∃ content, entry = .file content) ∧ Path.IsName r.name ∧ p = r.destination)

namespace Effect

variable {plan : List PlannedFault} {v : Volume} {root : Path} {e e' : Effect} {r : Route}

theorem belongs_nothing (plan : List PlannedFault) (v : Volume) (root : Path) (r : Route) :
    nothing.Belongs plan v root r := fun _ _ h => by simp [nothing] at h

theorem belongs_folders {reach : List Text} (hp : reach <+: r.folders)
    (hopen : ¬ Barred plan v root r.goal reach) :
    (folders r.goal reach).Belongs plan v root r := by
  intro p entry h
  unfold folders at h
  split at h
  · next hp' =>
    obtain ⟨⟨lead, rfl⟩, hreach⟩ := hp'
    have hlead := (List.prefix_append_right_inj r.goal).1 hreach
    refine Or.inl ⟨(Option.some.inj h).symm, lead, hlead.trans hp, rfl, ?_⟩
    by_contra hnot
    exact hopen ⟨lead, hlead, Or.inr hnot⟩
  · simp at h

theorem belongs_file (hn : Path.IsName r.name) (content : Bytes) :
    (file r.destination content).Belongs plan v root r := by
  intro p entry h
  unfold file at h
  split at h
  · next hp =>
    simp only [Option.some.injEq] at h
    exact Or.inr ⟨⟨content, h.symm⟩, hn, hp⟩
  · simp at h

theorem Belongs.after (h : e.Belongs plan v root r) (h' : e'.Belongs plan v root r) :
    (e'.after e).Belongs plan v root r := by
  intro p entry he
  rcases of_after he with he | he
  · exact h' p entry he
  · exact h p entry he

end Effect

namespace Compile

variable {compiler : Compiler} {profile : Profile} {encoding output : Text} {codec : Codec}
  {plan : List PlannedFault} {job : Job} {r : Route} {root : Path} {v w : Volume}

/-! ### Routes in volumes -/

theorem takes_of_undisturbed (h : job.Takes r root v) (hw : Undisturbed plan v root r w) :
    job.Takes r root w where
  tree := hw.tree
  source := by
    refine hw.persists.leads h.tree hw.tree ?_ h.source
    obtain ⟨content, hc⟩ := h.file
    simp [hc]
  named := h.named
  file := hw.persists.file _ h.file
  tidied := h.tidied
  leads := hw.persists.leads h.tree hw.tree (by simp [h.goal]) h.leads
  goal := hw.persists.folder _ h.goal
  output := h.output

/-- Nothing else bars the way to the folders of a route. -/
theorem along_of_undisturbed (h : job.Takes r root v) (hw : Undisturbed plan v root r w) :
    Along plan v root r.goal r.folders w where
  tree := hw.tree
  leads := (takes_of_undisturbed h hw).leads
  files lead hlead := ⟨hw.leads lead hlead, hw.persists.file _⟩
  folders _ _ hf := hw.persists.folder _ hf
  passable := hw.passable

/-- The folders of the route are there, up to the one around its end. -/
structure Ready (job : Job) (r : Route) (root : Path) (v : Volume) : Prop where
  tree : v.Tree
  leads : v.Leads root r.goal
  output : job.output = Path.descend root (r.folders ++ [r.name])
  folder : v.get? (r.goal ++ r.folders) = some .folder

theorem Ready.goal (h : Ready job r root v) : v.get? r.goal = some .folder := by
  by_cases hz : r.folders = []
  · simpa [hz] using h.folder
  · exact h.tree.folder_of_below h.folder hz

theorem destination_not_prefix (r : Route) : ¬ r.destination <+: r.goal ++ r.folders := by
  intro h
  have hlen := h.length_le
  simp only [Route.destination, List.length_append, List.length_singleton] at hlen
  omega

/-- Once the folders are made the route is ready, and its end is what it was. -/
theorem ready_of_changed (h : job.Takes r root v) {u : Volume} (hw : Undisturbed plan v root r w)
    (hu : w.Changed u (Effect.folders r.goal r.folders)) :
    Ready job r root u ∧ (r.Free u ↔ r.Free v) := by
  have ht := takes_of_undisturbed h hw
  have htree := hu.tree ht.tree
  refine ⟨⟨htree, hu.persists.leads ht.tree htree (by simp [ht.goal]) ht.leads, h.output, ?_⟩, ?_⟩
  · apply hu.get?_of_some
    rw [Effect.folders, if_pos ⟨List.prefix_append _ _, List.prefix_refl _⟩]
  · have hnot : ¬ (r.goal <+: r.destination ∧ r.destination <+: r.goal ++ r.folders) :=
      fun hp => destination_not_prefix r hp.2
    have hend : u.get? r.destination = w.get? r.destination :=
      hu.get?_of_none (by rw [Effect.folders, if_neg hnot])
    exact and_congr_right fun hn => by rw [hend, hw.destination hn]

theorem isUsable_name (h : job.output = Path.descend root (r.folders ++ [r.name]))
    (hpath : Path.IsUsable job.output) : Path.IsUsable r.name := by
  rw [h] at hpath
  refine Path.isUsable_of_descend ?_ hpath _ (List.mem_append_right _ (List.mem_singleton_self _))
  exact List.forall_mem_append.2 ⟨Path.isPiece_of_isName r.proper,
    List.forall_mem_singleton.2 r.piece⟩

/-! ### Writing -/

/-- What a result tells of the text and the effect. -/
structure Delivered (plan : List PlannedFault) (v : Volume) (root : Path) (codec : Codec)
    (output : Text) (job : Job) (r : Route) (result : Except Failure Unit) (e : Effect) : Prop where
  belongs : e.Belongs plan v root r
  ofFile : Path.IsUsable job.output → ∀ f, result = .error f → f.isOfFile = true
  written : result = .ok () → ∃ bytes, codec.encode output = .ok bytes ∧
    Path.IsName r.name ∧ e r.destination = some (.file bytes)

theorem delivered_error {f : Failure} {e : Effect} (he : e.Belongs plan v root r)
    (hf : Path.IsUsable job.output → f.isOfFile = true) :
    Delivered plan v root codec output job r (.error f) e :=
  ⟨he, fun hu _ h => by rw [← Except.error.inj h, hf hu], fun h => by simp at h⟩

theorem Delivered.after {result : Except Failure Unit} {e first : Effect}
    (h : Delivered plan v root codec output job r result e) (hf : first.Belongs plan v root r) :
    Delivered plan v root codec output job r result (e.after first) := by
  refine ⟨hf.after h.belongs, h.ofFile, ?_⟩
  intro hok
  obtain ⟨bytes, hb, hn, he⟩ := h.written hok
  exact ⟨bytes, hb, hn, by rw [Effect.after, he, Option.some_or]⟩

section
variable (hpath : Path.IsUsable job.output)
include hpath

theorem idles_write_error (content : Bytes) :
    Idles plan (fun w => Ready job r root w ∧ ¬ r.Free w)
      (onVolume job.output (·.write job.output content))
      (.error (.os (.of .isFolder job.output))) := by
  apply idles_onVolume hpath
  intro w ⟨hw, hf⟩
  rw [hw.output]
  by_cases hn : Path.IsName r.name
  · have hfolder : w.get? (r.goal ++ (r.folders ++ [r.name])) = some .folder :=
      Decidable.byContradiction fun hne => hf ⟨hn, hne⟩
    exact hw.tree.write_folder hw.leads hn hfolder content
  · exact hw.tree.write_notName hw.leads r.piece hn hw.folder content

theorem changed_destination (hw : Ready job r root w) (hf : r.Free w) (content : Bytes) :
    w.Changed (w.put r.destination (.file content)) (Effect.file r.destination content) := by
  have hfree := hf.2
  rw [Route.destination, ← List.append_assoc] at hfree ⊢
  exact Volume.changed_file hw.folder hf.1 (isUsable_name hw.output hpath) hfree content

theorem acts_write (content : Bytes) :
    Acts plan (fun w => Ready job r root w ∧ r.Free w)
      (onVolume job.output (·.write job.output content)) (.ok ())
      (Effect.file r.destination content) := by
  refine acts_onVolume hpath fun w ⟨hw, hf⟩ => ⟨_, ?_, changed_destination hpath hw hf content⟩
  rw [hw.output]
  exact hw.tree.write_descend hw.leads hf.1 hw.folder hf.2 content

end

theorem ready_of_written {content : Bytes} (hw : Ready job r root v ∧ r.Free v)
    (hc : v.Changed w (Effect.file r.destination content)) : Ready job r root w ∧ r.Free w := by
  obtain ⟨hr, hf⟩ := hw
  have htree := hc.tree hr.tree
  refine ⟨⟨htree, hc.persists.leads hr.tree htree (by simp [hr.goal]) hr.leads, hr.output,
    hc.persists.folder _ hr.folder⟩, hf.1, ?_⟩
  rw [hc.get?_of_some (if_pos rfl)]
  simp

section
variable (hencoding : Encoding.IsName encoding)
include hencoding

section
variable (hc : Encoding.find? encoding = some (.text codec))
include hc

/-- The output is emptied before the text is encoded. -/
theorem acts_writeText (hpath : Path.IsUsable job.output) {result : Except Failure Unit}
    {e : Effect} (hrest : Acts plan (fun w => Ready job r root w ∧ r.Free w)
      (match codec.encode output with
        | .ok content => onVolume job.output (·.write job.output content)
        | .error f => throw (.codec f)) result e) :
    Acts plan (fun w => Ready job r root w ∧ r.Free w) (writeText job.output output encoding)
      result (e.after (Effect.file r.destination [])) := by
  unfold writeText
  apply (idles_of_runOn (runOn_checkName hencoding)).bind
  apply (acts_write hpath []).bind fun v w => ready_of_written
  exact (idles_of_runOn (runOn_codec hc)).bind hrest

theorem exists_acts_writeText (hpath : Path.IsUsable job.output) (plan : List PlannedFault)
    {r : Route} (v : Volume) (root : Path) (hn : Path.IsName r.name) (output : Text) :
    ∃ result e, Acts plan (fun w => Ready job r root w ∧ r.Free w)
        (writeText job.output output encoding) result e ∧
      Delivered plan v root codec output job r result e := by
  cases hb : codec.encode output with
  | error fault =>
    refine ⟨.error (.codec fault), _, acts_writeText hencoding hc hpath ?_,
      (delivered_error (Effect.belongs_nothing plan v root r) fun _ => rfl).after
        (Effect.belongs_file hn [])⟩
    rw [hb]
    exact (idles_of_runOn fun _ => rfl).acts
  | ok bytes =>
    have hfile : Delivered plan v root codec output job r (.ok ())
        (Effect.file r.destination bytes) :=
      ⟨Effect.belongs_file hn bytes, fun _ f hf => by simp at hf,
        fun _ => ⟨bytes, hb, hn, if_pos rfl⟩⟩
    refine ⟨.ok (), _, acts_writeText hencoding hc hpath ?_,
      hfile.after (Effect.belongs_file hn [])⟩
    rw [hb]
    exact acts_write hpath bytes

theorem exists_acts_writeOutput (plan : List PlannedFault) (job : Job) {r : Route} (v : Volume)
    (root : Path) (hn : Path.IsName r.name) (output : Text) :
    ∃ result e, Acts plan (fun w => Ready job r root w ∧ r.Free w)
        (writeOutput job.output output encoding) result e ∧
      Delivered plan v root codec output job r result e := by
  unfold writeOutput
  cases hp : (planned .write job.output plan).1 with
  | some errno =>
    exact ⟨.error (.os (.of errno job.output)), _, (idles_guard_error hp).bind_error.acts,
      delivered_error (Effect.belongs_nothing plan v root r) fun _ => rfl⟩
  | none =>
    cases hr : Path.refusal? job.output with
    | some refusal =>
      -- The path is refused before anything is written.
      have hidles : Idles plan (fun w => Ready job r root w ∧ r.Free w)
          (writeText job.output output encoding) (.error (.noPath refusal)) := by
        unfold writeText
        exact (idles_of_runOn (runOn_checkName hencoding)).bind_idles
          (idles_onVolume_of_refused hr _).bind_error
      refine ⟨_, _, (idles_guard hp).bind hidles.acts,
        delivered_error (Effect.belongs_nothing plan v root r) fun hu => ?_⟩
      rw [Path.refusal?_eq_none_iff.2 hu] at hr
      simp at hr
    | none =>
      obtain ⟨result, e, hacts, hdel⟩ := exists_acts_writeText hencoding hc
        (Path.refusal?_eq_none_iff.1 hr) plan v root hn output
      exact ⟨result, e, (idles_guard hp).bind hacts, hdel⟩

end

theorem exists_idles_writeOutput (plan : List PlannedFault) (job : Job) (r : Route) (root : Path)
    (output : Text) :
    ∃ f, Idles plan (fun w => Ready job r root w ∧ ¬ r.Free w)
        (writeOutput job.output output encoding) (.error f) ∧
      (Path.IsUsable job.output → f.isOfFile = true) := by
  unfold writeOutput
  cases hp : (planned .write job.output plan).1 with
  | some errno =>
    exact ⟨.os (.of errno job.output), (idles_guard_error hp).bind_error, fun _ => rfl⟩
  | none =>
    have hcheck : Idles plan (fun w => Ready job r root w ∧ ¬ r.Free w) (checkName encoding)
      (.ok ()) := idles_of_runOn (runOn_checkName hencoding)
    unfold writeText
    cases hr : Path.refusal? job.output with
    | some refusal =>
      refine ⟨_, (idles_guard hp).bind_idles
        (hcheck.bind_idles (idles_onVolume_of_refused hr _).bind_error), fun hu => ?_⟩
      rw [Path.refusal?_eq_none_iff.2 hu] at hr
      simp at hr
    | none =>
      have hpath := Path.refusal?_eq_none_iff.1 hr
      exact ⟨.os (.of .isFolder job.output), (idles_guard hp).bind_idles
        (hcheck.bind_idles (idles_write_error hpath []).bind_error), fun _ => rfl⟩

/-! ### Delivering -/

/-- The folders are made as far as possible, and what comes then depends on what stands at the end
of the route. -/
theorem exists_acts_deliver (h : job.Takes r root v)
    (hc : Encoding.find? encoding = some (.text codec)) (plan : List PlannedFault)
    (output : Text) :
    ∃ result e, Acts plan (Undisturbed plan v root r) (deliver job output encoding) result e ∧
      Delivered plan v root codec output job r result e := by
  obtain ⟨result, reach, hreach, hopen, hend, hacts⟩ :=
    exists_ensureParent h.tidied h.goal r.proper r.usable r.piece plan
  have hmake : Acts plan (Undisturbed plan v root r) (Action.ensureParent job.output) result
      (Effect.folders r.goal reach) := by
    intro s hs hl
    obtain ⟨t, hrun, hlasts, hg⟩ := hacts s (along_of_undisturbed h hs) hl
    exact ⟨t, by rw [h.output, hrun], hlasts, hg.changed hs.tree (hs.persists.folder _ h.goal)⟩
  have hbelongs := Effect.belongs_folders hreach hopen
  unfold deliver
  rcases hend with ⟨rfl, rfl⟩ | ⟨⟨e, rfl⟩, _⟩
  · by_cases hfree : r.Free v
    · have hnext (w u : Volume) (hw : Undisturbed plan v root r w)
          (hu : w.Changed u (Effect.folders r.goal r.folders)) :
          Ready job r root u ∧ r.Free u := by
        obtain ⟨hready, hiff⟩ := ready_of_changed h hw hu
        exact ⟨hready, hiff.2 hfree⟩
      obtain ⟨result, e, hacts, hdel⟩ :=
        exists_acts_writeOutput hencoding hc plan job v root hfree.1 output
      refine ⟨result, _, hmake.bind hnext ?_, hdel.after hbelongs⟩
      cases result with
      | error f => exact hacts.bind_error
      | ok _ => exact hacts.bind_idles (idles_log _ _ _)
    · have hnext (w u : Volume) (hw : Undisturbed plan v root r w)
          (hu : w.Changed u (Effect.folders r.goal r.folders)) :
          Ready job r root u ∧ ¬ r.Free u := by
        obtain ⟨hready, hiff⟩ := ready_of_changed h hw hu
        exact ⟨hready, fun hf => hfree (hiff.1 hf)⟩
      obtain ⟨f, hidles, hfile⟩ := exists_idles_writeOutput hencoding plan job r root output
      exact ⟨.error f, _, hmake.bind hnext hidles.bind_error.acts,
        (delivered_error (Effect.belongs_nothing plan v root r) hfile).after hbelongs⟩
  · exact ⟨_, _, hmake.bind_error, delivered_error hbelongs fun _ => rfl⟩

end

/-! ### The whole job -/

/-- What the results of a job tell of the compiler, the source and the effect. -/
structure Told (compiler : Compiler) (profile : Profile) (encoding : Text)
    (plan : List PlannedFault) (v : Volume) (root : Path) (job : Job) (r : Route)
    (result : Except Failure Unit) (e : Effect) : Prop where
  belongs : e.Belongs plan v root r
  ofFile : compiler.FailsAsFile → Path.IsUsable job.output → ∀ f, result = .error f →
    f.isOfFile = true
  written : result = .ok () → ∃ codec content bytes, Encoding.find? encoding = some (.text codec) ∧
    v.get? r.origin = some (.file content) ∧
    Compiles compiler profile codec job.source content bytes ∧
    Path.IsName r.name ∧ e r.destination = some (.file bytes)

theorem read_of_takes (h : job.Takes r root v) {content : Bytes}
    (hc : v.get? r.origin = some (.file content)) : v.read job.source = .ok content := by
  rw [Volume.read, h.tree.stat_of_leads h.source hc fun hend => absurd hend h.named]

theorem read_of_undisturbed (h : job.Takes r root v) (hw : Undisturbed plan v root r w) :
    w.read job.source = v.read job.source := by
  obtain ⟨content, hc⟩ := h.file
  have hwc : w.get? r.origin = some (.file content) := by rw [hw.origin, hc]
  rw [read_of_takes h hc, read_of_takes (takes_of_undisturbed h hw) hwc]

theorem exists_acts_compileFile (h : job.Takes r root v) (he : profile.encoding = some encoding)
    (hz : '\x00' ∉ encoding) (compiler : Compiler) (plan : List PlannedFault) :
    ∃ result e, Acts plan (Undisturbed plan v root r) (compileFile compiler profile job) result e ∧
      Told compiler profile encoding plan v root job r result e := by
  obtain ⟨content, hcontent⟩ := h.file
  cases hout : outputText compiler profile job.source encoding (planned .read job.source plan).1
      (v.read job.source) with
  | error f =>
    refine ⟨.error f, Effect.nothing, fun s hs hl => ?_, ?_⟩
    · refine ⟨{ s with faults := (planned .read job.source s.faults).2 }, ?_, hl.planned _ _,
        Volume.changed_nothing _⟩
      rw [runOn_compileFile_planned he, hl.same, read_of_undisturbed h hs, hout]
    · refine ⟨Effect.belongs_nothing plan v root r, fun hc _ g hg => ?_, fun hok => by simp at hok⟩
      rw [← Except.error.inj hg]
      exact isOfFile_of_outputText hz hc (h.tree.sound.isUsable_of_leads h.source) hout
  | ok output =>
    obtain ⟨hencoding, codec, bytes, text, hc, hread, hd, ht⟩ := of_outputText hout
    obtain ⟨result, e, hacts, hdel⟩ := exists_acts_deliver hencoding h hc plan output
    refine ⟨result, e, fun s hs hl => ?_, hdel.belongs, fun _ => hdel.ofFile, fun hok => ?_⟩
    · rw [runOn_compileFile_planned he, hl.same, read_of_undisturbed h hs, hout]
      exact hacts { s with faults := (planned .read job.source s.faults).2 } hs (hl.planned _ _)
    · obtain ⟨written, hb, hn, hwritten⟩ := hdel.written hok
      have hbytes : bytes = content :=
        Except.ok.inj (hread.symm.trans (read_of_takes h hcontent))
      rw [hbytes] at hd
      exact ⟨codec, content, written, hc, hcontent, ⟨text, output, hd, ht, hb⟩, hn, hwritten⟩

/-- A job gives one result and has one effect on every volume where nothing that matters to its
route is disturbed. -/
theorem exists_acts_toOutcome (h : job.Takes r root v) (he : profile.encoding = some encoding)
    (hz : '\x00' ∉ encoding) (compiler : Compiler) (plan : List PlannedFault) :
    ∃ result e,
      Acts plan (Undisturbed plan v root r) (toOutcome compiler profile job) (settle job result)
        e ∧ Told compiler profile encoding plan v root job r result e := by
  obtain ⟨result, e, hacts, htold⟩ := exists_acts_compileFile h he hz compiler plan
  refine ⟨result, e, ?_, htold⟩
  intro s hs hl
  obtain ⟨t, hrun, hlasts, hchanged⟩ := hacts s hs hl
  obtain ⟨u, hsettled, hvolume, hfaults⟩ := exists_runOn_toOutcome hrun
  exact ⟨u, hsettled, by rwa [hfaults], by rwa [hvolume]⟩

end Compile

end Inlay
