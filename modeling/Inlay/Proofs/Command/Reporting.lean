import Inlay.Proofs.Compile.Batch
import Inlay.Proofs.Settings.Saved
import Inlay.Proofs.Volume.Removal
import Inlay.Proofs.Workspace.Effects
import Inlay.Proofs.Workspace.Results
import Inlay.Proofs.Workspace.Surroundings

/-!
# Reports of failures

Saving a report takes nothing away (`moves_writeIfAsked`). A command goes on if the system keeps the
report from being saved. It does not go on if the path of the report is none, or if a text of it has
no form in the usual encoding (`exists_runOn_writeIfAsked`).
-/

namespace Inlay

open Inlay.Action

/-! ### The report -/

namespace Report

variable [Host]

section
variable {R : Volume → Volume → Prop} (hr : ∀ v, R v v) (ht : ∀ u v w, R u v → R v w → R u w)
  (hmake : ∀ v w path, Path.IsUsable path → v.makeFolder path = .ok w → R v w)
include hr ht hmake

theorem moves_save {path : Path}
    (h : ∀ v w content, Path.IsUsable path → v.write path content = .ok w → R v w)
    (outcomes : List Outcome) : Moves R (save path outcomes) := by
  unfold save
  exact moves_bind ht ((eq_absolute path).keeps.moves hr) fun full => moves_bind ht
    (moves_ensureParent hr ht hmake full) fun _ => moves_bind ht
      ((keeps_guard _ _).moves hr) fun _ => moves_writeParts hr ht h _

theorem moves_write {path : Path}
    (h : ∀ v w content, Path.IsUsable path → v.write path content = .ok w → R v w)
    (outcomes : List Outcome) : Moves R (write path outcomes) := by
  unfold write
  split
  · exact (keeps_pure _).moves hr
  · apply moves_bind ht (moves_attempt (moves_save hr ht hmake h outcomes))
    intro result
    cases result with
    | ok _ => exact (keeps_bind (keeps_log _ _ _) fun _ => keeps_pure _).moves hr
    | error f =>
      cases f with
      | os e => exact (keeps_bind (keeps_log _ _ _) fun _ => keeps_pure _).moves hr
      | _ => exact (keeps_throw _).moves hr

/-- The only path that may be written is that of the report, and only if one is asked for. -/
theorem moves_writeIfAsked_of {profile : Profile} {folder : Path}
    (h : profile.saveErrorLog = some true → ∀ name, profile.errorLogName = some name →
      ∀ v w content, Path.IsUsable (Path.join folder name) →
        v.write (Path.join folder name) content = .ok w → R v w)
    (outcomes : List Outcome) : Moves R (writeIfAsked profile folder outcomes) := by
  unfold writeIfAsked
  split
  · next hasked =>
    have hsave : profile.saveErrorLog = some true := by
      cases hsaved : profile.saveErrorLog with
      | none => simp [hsaved] at hasked
      | some b => simpa [hsaved] using hasked
    intro s
    cases hname : profile.errorLogName with
    | none => exact hr _
    | some name =>
      rw [runOn_bind_of_ok (runOn_need_some rfl s)]
      exact moves_write hr ht hmake (h hsave name hname) outcomes s
  · exact (keeps_pure _).moves hr

end

theorem moves_writeIfAsked (profile : Profile) (folder : Path) (outcomes : List Outcome) :
    Moves Volume.Retains (writeIfAsked profile folder outcomes) :=
  moves_writeIfAsked_of Volume.Retains.refl (fun u v w => @Volume.Retains.trans v w u)
    (fun _ _ _ _ h => Volume.retains_makeFolder h) (fun _ _ _ _ _ _ _ h => Volume.retains_write h)
    outcomes

/-! ### Reports that end a command -/

/-- What keeps a report from being saved, the system aside: its path is none, or one of its parts
has no form in the usual encoding. -/
def Unsaid (path : Path) (outcomes : List Outcome) (f : Failure) : Prop :=
  ¬ Path.IsUsable path ∧ (∃ refusal, f = .noPath refusal) ∨
    ∃ fault, (encodeParts .utf8 (parts outcomes)).1 = some fault ∧ f = .codec fault

theorem of_runOn_save_error {path : Path} {outcomes : List Outcome} {s t : Workspace} {f : Failure}
    (hs : s.volume.Sound) (h : (save path outcomes).runOn s = (.error f, t)) :
    (∃ e, f = .os e) ∨ Unsaid path outcomes f := by
  unfold save at h
  rw [runOn_bind] at h
  cases hfull : (absolute path).runOn s with
  | mk r u =>
    cases r with
    | error e =>
      simp only [hfull, Prod.mk.injEq, Except.error.injEq] at h
      rw [← h.1]
      exact Or.inl (throws_absolute (P := fun f => ∃ e, f = .os e) (fun e => ⟨e, rfl⟩) path _ _ _
        hfull)
    | ok full =>
      simp only [hfull] at h
      obtain ⟨hfolder, rfl, -⟩ := of_runOn_absolute hfull
      have hos (e : OsError) : (∃ e', Failure.os e = .os e') ∨ Unsaid path outcomes (.os e) :=
        Or.inl ⟨e, rfl⟩
      have hrefused (hnot : ¬ Path.IsUsable path) (refusal : PathRefusal) :
          (∃ e, Failure.noPath refusal = .os e) ∨ Unsaid path outcomes (.noPath refusal) :=
        Or.inr (Or.inl ⟨hnot, refusal, rfl⟩)
      have hparent : Throws (fun f => (∃ e, f = .os e) ∨ Unsaid path outcomes f)
          (Action.ensureParent (s.volume.absolute path)) := throws_ensureParent hos fun hnot =>
        hrefused fun hu => hnot (hs.isUsable_absolute hu hfolder)
      have hparts : Throws (fun f => (∃ e, f = .os e) ∨ Unsaid path outcomes f)
          (writeParts path (parts outcomes)) :=
        throws_writeParts hos (fun refusal hr => hrefused (fun hu => by
          rw [Path.refusal?_eq_none_iff.2 hu] at hr
          simp at hr) refusal) fun fault hfault => Or.inr (Or.inr ⟨fault, hfault, rfl⟩)
      exact throws_bind hparent (fun _ => throws_bind (throws_guard hos _ _) fun _ => hparts)
        _ _ _ h

/-- An error of the system is only logged. -/
theorem of_runOn_write_error {path : Path} {outcomes : List Outcome} {s t : Workspace} {f : Failure}
    (hs : s.volume.Sound) (h : (write path outcomes).runOn s = (.error f, t)) :
    Unsaid path outcomes f := by
  unfold write at h
  by_cases hok : outcomes.all (·.ok) = true
  · rw [if_pos hok] at h
    simp at h
  · rw [if_neg hok] at h
    cases hsave : (save path outcomes).runOn s with
    | mk saved u =>
      rw [runOn_bind_of_ok (by rw [runOn_attempt, hsave])] at h
      cases saved with
      | ok _ => cases h
      | error g =>
        have hor := of_runOn_save_error hs hsave
        cases g with
        | os e => cases h
        | _ =>
          obtain rfl := Except.error.inj (Prod.mk.inj h).1
          simpa using hor

/-- Without failures there is no report, and the command goes on. It only ends here if a report is
asked for that cannot be put into words, or under its name. Nothing is taken away in any case. -/
theorem exists_runOn_writeIfAsked {profile : Profile} (h : profile.Checked) (folder : Path)
    (outcomes : List Outcome) {s : Workspace} (hs : s.volume.Sound) :
    ∃ result t, (writeIfAsked profile folder outcomes).runOn s = (result, t) ∧
      s.volume.Retains t.volume ∧ ((∀ o ∈ outcomes, o.ok = true) → result = .ok [] ∧ t = s) ∧
      ∀ f, result = .error f → profile.saveErrorLog = some true ∧
        ∃ name, profile.errorLogName = some name ∧ Unsaid (Path.join folder name) outcomes f := by
  obtain ⟨name, hname⟩ := h.errorLogName
  have hretains := moves_writeIfAsked profile folder outcomes s
  cases hrun : (writeIfAsked profile folder outcomes).runOn s with
  | mk result t =>
    rw [hrun] at hretains
    refine ⟨result, t, rfl, hretains, fun hok => ?_, ?_⟩
    · rw [runOn_writeIfAsked h outcomes (Or.inr hok)] at hrun
      obtain ⟨rfl, rfl⟩ := Prod.mk.inj hrun
      exact ⟨rfl, rfl⟩
    · rintro f rfl
      obtain ⟨flag, hflag⟩ := h.saveErrorLog
      cases flag with
      | false =>
        rw [runOn_writeIfAsked h outcomes (Or.inl hflag)] at hrun
        simp at hrun
      | true =>
        rw [writeIfAsked, hflag, Option.getD_some, if_pos rfl,
          runOn_bind_of_ok (runOn_need_some hname s)] at hrun
        exact ⟨hflag, name, hname, of_runOn_write_error hs hrun⟩

end Report

end Inlay
