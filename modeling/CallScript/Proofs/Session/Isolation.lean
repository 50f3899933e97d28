import CallScript.Proofs.Eval.Isolation
import CallScript.Session.Basic

/-!
# What sessions write to

Whatever is done with a session, and however it ends, at most the global frame of that session is
written to. The root frame is another one, and so is every frame that belongs to another session.
-/

namespace CallScript

variable {limits : Limits} {home : FrameId}

/-- A session works on in the same frames, and of those that there were at most one was written to. -/
structure WritesOnlyTo (home : FrameId) (before after : Desk) : Prop where
  root : after.session.root = before.session.root
  globals : after.session.globals = before.session.globals
  frames : OnlyWrites home (fun _ => True) before.world after.world

/-- A session wrote to its own global frame at most. -/
def StaysInside (before after : Desk) : Prop :=
  WritesOnlyTo before.session.globals before after

theorem lasting_writesOnlyTo (home : FrameId) : Lasting (WritesOnlyTo home) := by
  have hframes := lasting_onlyWrites home fun _ => True
  constructor
  · intro desk
    exact ⟨rfl, rfl, hframes.refl desk.world⟩
  · intro first second third h h'
    exact ⟨h'.root.trans h.root, h'.globals.trans h.globals, hframes.trans h.frames h'.frames⟩

theorem lasting_staysInside : Lasting StaysInside := by
  constructor
  · intro desk
    exact (lasting_writesOnlyTo _).refl desk
  · intro first second third h h'
    refine (lasting_writesOnlyTo _).trans h ?_
    rw [StaysInside, h.globals] at h'
    exact h'

/-- Work that writes to the global frame at most, wherever that is. -/
theorem Maintains.staysInside {α : Type} {job : Job α} (h : ∀ home, Maintains (WritesOnlyTo home) job) :
    Maintains StaysInside job :=
  fun desk => h desk.session.globals desk

namespace Job

theorem maintains_update {change : Session → Session} (hroot : ∀ s, (change s).root = s.root)
    (hglobals : ∀ s, (change s).globals = s.globals) : Maintains (WritesOnlyTo home) (update change) := by
  refine .modify fun desk => ⟨hroot _, hglobals _, ?_⟩
  exact (lasting_onlyWrites _ _).refl desk.world

theorem maintains_updateReporter (change : Reporter → Reporter) :
    Maintains (WritesOnlyTo home) (updateReporter change) :=
  maintains_update (fun _ => rfl) fun _ => rfl

theorem maintains_note (event : Event) : Maintains (WritesOnlyTo home) (note event) :=
  .modify fun _ => ⟨rfl, rfl, (onFrames_onlyWrites _ _).same rfl⟩

theorem maintains_attempt {α : Type} {run : Run α}
    (h : Maintains (OnlyWrites home fun _ => True) run) :
    Maintains (WritesOnlyTo home) (attempt run) := by
  intro desk
  cases hworld : run desk.world with
  | ok a world =>
    have hattempt : attempt run desk = .ok (.ok a) { desk with world } := by rw [attempt, hworld]
    rw [stateAfter_of_ok hattempt]
    exact ⟨rfl, rfl, h.of_ok hworld⟩
  | error halt world =>
    have hattempt : attempt run desk = .ok (.error halt) { desk with world } := by
      rw [attempt, hworld]
    rw [stateAfter_of_ok hattempt]
    exact ⟨rfl, rfl, h.of_error hworld⟩

end Job

namespace Session

theorem maintains_log (notice : Notice) : Maintains (WritesOnlyTo home) (log limits notice) := by
  have hR := lasting_writesOnlyTo home
  refine .bind hR (.get hR) fun desk => ?_
  split
  · exact .bind hR (.throw hR _) fun _ => Job.maintains_note _
  · exact Job.maintains_note _

theorem maintains_add (source : String) (line : Int) :
    Maintains StaysInside (add limits source line) := by
  refine .staysInside fun home => ?_
  have hR := lasting_writesOnlyTo home
  refine .bind hR (.get hR) fun desk => ?_
  refine .bind hR (Job.maintains_updateReporter _) fun _ => ?_
  split
  · exact .throw hR _
  · exact .throw hR _
  · refine .bind hR (Job.maintains_updateReporter _) fun _ => ?_
    refine .bind hR (maintains_log _) fun _ => ?_
    exact Job.maintains_update (fun _ => rfl) fun _ => rfl

theorem maintains_runQueued (item : Queued) : Maintains StaysInside (runQueued limits item) := by
  -- The program runs in the global frame of the desk at which the work begins.
  refine .get_bind fun desk => ?_
  have hR := lasting_writesOnlyTo desk.session.globals
  refine Maintains.bind hR (Job.maintains_updateReporter _) (fun _ => ?_) desk
  have heval := eval_writesDefined limits.rounds limits.depth desk.session.forms
    desk.session.globals item.program
  refine .bind hR (Job.maintains_attempt (heval.mono fun w w' h => h.mono fun _ _ => trivial)) ?_
  intro result
  split
  · exact .throw hR _
  · exact .throw hR _
  · refine .bind hR (maintains_log _) fun _ => ?_
    refine .bind hR (Job.maintains_update (fun _ => rfl) fun _ => rfl) fun _ => ?_
    exact Job.maintains_updateReporter _

theorem maintains_runAll (items : List Queued) : Maintains StaysInside (runAll limits items) := by
  induction items with
  | nil => exact .pure lasting_staysInside ()
  | cons item rest ih => exact .bind lasting_staysInside (maintains_runQueued item) fun _ => ih

theorem maintains_run : Maintains StaysInside (run limits) := by
  have hR := lasting_staysInside
  refine .bind hR (.get hR) fun desk => ?_
  refine .bind hR (.staysInside fun home => ?_) fun _ => maintains_runAll _
  exact Job.maintains_update (fun _ => rfl) fun _ => rfl

theorem maintains_pop : Maintains StaysInside pop := by
  refine .staysInside fun home => ?_
  have hR := lasting_writesOnlyTo home
  refine .bind hR (.get hR) fun desk => ?_
  split
  · exact .throw hR _
  · exact .bind hR (Job.maintains_update (fun _ => rfl) fun _ => rfl) fun _ => .pure hR _

/-- What is done with a session: a text is queued, the queue is run, or a result is taken. -/
inductive Step where
  | add (source : String) (line : Int)
  | run
  | pop

/-- The desk after a step, which may have failed. -/
def Step.after (limits : Limits) (desk : Desk) : Step → Desk
  | add source line => stateAfter (Session.add limits source line) desk
  | run => stateAfter (Session.run limits) desk
  | pop => stateAfter Session.pop desk

/-- The desk after several steps, in order. A step that fails does not keep the next from being
taken. -/
def after (limits : Limits) (desk : Desk) (steps : List Step) : Desk :=
  steps.foldl (Step.after limits) desk

theorem staysInside_step (desk : Desk) (step : Step) :
    StaysInside desk (step.after limits desk) := by
  cases step with
  | add source line => exact maintains_add source line desk
  | run => exact maintains_run desk
  | pop => exact maintains_pop desk

theorem staysInside_after (desk : Desk) (steps : List Step) :
    StaysInside desk (after limits desk steps) := by
  induction steps generalizing desk with
  | nil => exact lasting_staysInside.refl desk
  | cons step rest ih => exact lasting_staysInside.trans (staysInside_step desk step) (ih _)

section Start

variable (path : String) (interactive : Bool) (forms : Registry) (reporter : Reporter)
variable (writes verbose : Bool) (w : World)

theorem start_extends : Extends w (start path interactive forms reporter writes verbose w).world := by
  have hroot : Extends w (w.addRoot writes).2 := by
    refine ⟨?_, fun id hid => ?_⟩
    · simp [World.addRoot, World.addFrame]
    · simp only [World.addRoot, World.addFrame, Array.getElem?_push, if_neg (Nat.ne_of_lt hid)]
  exact lasting_extends.trans hroot (extends_withFrame [] w.frames.size _)

theorem start_root_frame :
    (start path interactive forms reporter writes verbose w).world.frames[w.frames.size]? =
      some ⟨World.rootBindings writes w.frames.size, none⟩ := by
  have hroot : (w.addRoot writes).2.frames[w.frames.size]? =
      some ⟨World.rootBindings writes w.frames.size, none⟩ := by
    simp only [World.addRoot, World.addFrame, Array.getElem?_push, if_true]
  have hsize : w.frames.size < (w.addRoot writes).2.frames.size := by
    simp [World.addRoot, World.addFrame]
  have hextends := extends_withFrame [] w.frames.size (w.addRoot writes).2
  exact (hextends.unchanged _ hsize).trans hroot

theorem start_globals :
    (start path interactive forms reporter writes verbose w).session.globals = w.frames.size + 1 := by
  simp [start, World.addRoot, World.addFrame]

end Start

end Session

/-- Evaluation writes to the frame it runs in alone. Whether it ends with a value, with a fault or at
a limit, every other frame that there was is as it was, the frame itself stays where it is and keeps
its names, and it binds anew only names of definitions in the expression outside of the functions that
the expression makes. So the call of a function changes no frame that there was before, and steps of a
session, failing ones too, change none but its global frame. A new session keeps its root frame as it
was made, and every frame of the world that it was opened in. -/
theorem evaluation_writes_own_frame :
    (∀ rounds depth forms frame e w, OnlyWrites frame (Defines forms · e) w
      (stateAfter (eval rounds depth forms frame e) w)) ∧
    (∀ rounds depth v args w, Extends w
      (stateAfter (applyValue depth (eval rounds depth) v args) w)) ∧
    (∀ limits desk steps, StaysInside desk (Session.after limits desk steps)) ∧
    ∀ limits path interactive forms reporter writes verbose w steps,
      let desk := Session.after limits
        (Session.start path interactive forms reporter writes verbose w) steps
      desk.session.root = w.frames.size ∧
        desk.world.frames[w.frames.size]? = some ⟨World.rootBindings writes w.frames.size, none⟩ ∧
        Extends w desk.world := by
  refine ⟨eval_writesDefined, applyValue_extends, fun _ => Session.staysInside_after, ?_⟩
  intro limits path interactive forms reporter writes verbose w steps desk
  have hstart := Session.start_extends path interactive forms reporter writes verbose w
  have hroot := Session.start_root_frame path interactive forms reporter writes verbose w
  have hglobals := Session.start_globals path interactive forms reporter writes verbose w
  have hsteps := @Session.staysInside_after limits
    (Session.start path interactive forms reporter writes verbose w) steps
  have hframes := hsteps.frames
  rw [hglobals] at hframes
  obtain ⟨hsize, -⟩ := Array.getElem?_eq_some_iff.1 hroot
  refine ⟨hsteps.root, ?_, ?_⟩
  · rw [hframes.others _ hsize (Nat.ne_of_lt (Nat.lt_succ_self _)), hroot]
  · exact hframes.extends_of_new hstart (Nat.le_succ _)

end CallScript
