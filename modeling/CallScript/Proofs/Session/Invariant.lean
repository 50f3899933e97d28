import CallScript.Proofs.Eval.Invariant
import CallScript.Proofs.Grammar.RoundTrip
import CallScript.Proofs.Session.Isolation
import CallScript.Proofs.Session.Step

/-!
# Sessions keep invariants

Texts that are parsed hold nothing but what the grammar allows. So an invariant that every program of
the language has holds, however a session goes on, of all values in its world and of all its results.
-/

namespace CallScript.Invariant

variable {κ : Type} [Preorder κ] {inv : Invariant κ} {k k' : κ} {forms : Registry} {desk : Desk}
variable (limits : Limits)

/-- The invariant holds of every value in the world of the desk, of what is queued and of the results. -/
structure OfDesk (inv : Invariant κ) (forms : Registry) (k : κ) (desk : Desk) : Prop where
  read : desk.session.forms = forms
  world : inv.OfWorld k desk.world
  queue : ∀ item ∈ desk.session.queue, inv.expr k forms item.program
  results : ∀ v ∈ desk.session.results, inv.value k v

namespace OfDesk

theorem inWorld (h : inv.OfDesk forms k desk) (hle : k ≤ k') {w : World} (hw : inv.OfWorld k' w) :
    inv.OfDesk forms k' (desk.inWorld w) :=
  ⟨h.read, hw, fun item hitem => inv.expr_mono hle (h.queue item hitem),
    fun v hv => inv.value_mono hle (h.results v hv)⟩

theorem working (h : inv.OfDesk forms k desk) (source : String) (line : Int) :
    inv.OfDesk forms k (desk.working source line) :=
  ⟨h.read, h.world, h.queue, h.results⟩

theorem resting (h : inv.OfDesk forms k desk) : inv.OfDesk forms k desk.resting :=
  ⟨h.read, h.world, h.queue, h.results⟩

theorem noting (h : inv.OfDesk forms k desk) (notice : Notice) :
    inv.OfDesk forms k (desk.noting notice) :=
  h.inWorld (le_refl k) (h.world.of_frames rfl rfl)

theorem queueing (h : inv.OfDesk forms k desk) {item : Queued} (hitem : inv.expr k forms item.program) :
    inv.OfDesk forms k (desk.queueing item) :=
  ⟨h.read, h.world, List.forall_mem_append.2 ⟨h.queue, List.forall_mem_singleton.2 hitem⟩, h.results⟩

theorem keeping (h : inv.OfDesk forms k desk) {v : Value} (hv : inv.value k v) :
    inv.OfDesk forms k (desk.keeping v) :=
  ⟨h.read, h.world, h.queue, List.forall_mem_append.2 ⟨h.results, List.forall_mem_singleton.2 hv⟩⟩

theorem withoutQueue (h : inv.OfDesk forms k desk) : inv.OfDesk forms k desk.withoutQueue :=
  ⟨h.read, h.world, fun _ => nofun, h.results⟩

/-- Every program of the language has the invariant. -/
abbrev OfPrograms (inv : Invariant κ) (forms : Registry) : Prop :=
  ∀ k e, e.WellFormed → inv.expr k forms e

theorem add (hprograms : OfPrograms inv forms) (h : inv.OfDesk forms k desk) (source : String)
    (line : Int) : inv.OfDesk forms k (stateAfter (Session.add limits source line) desk) := by
  have hworking := h.working source line
  rw [stateAfter, Session.add_eq]
  cases hparse : Grammar.parse limits.depth source with
  | error failure => cases failure <;> exact hworking
  | ok program =>
    by_cases hcannot : desk.CannotLog limits (.queued desk.session.path line program)
    · simp only [if_pos hcannot]
      exact hworking.resting
    · simp only [if_neg hcannot]
      exact (hworking.resting.noting _).queueing
        (hprograms k program (Grammar.wellFormed_of_parse hparse))

theorem runQueued (h : inv.OfDesk forms k desk) {item : Queued}
    (hitem : inv.expr k forms item.program) :
    ∃ k', k ≤ k' ∧ inv.OfDesk forms k' (stateAfter (Session.runQueued limits item) desk) := by
  -- The forms of a session never change, so what is queued is read as it was when it was parsed.
  have hread : inv.expr k desk.session.forms item.program := h.read ▸ hitem
  obtain ⟨k', hle, hw, hvalue⟩ := eval_keeps inv limits.rounds limits.depth k desk.session.forms
    desk.session.globals item.program hread desk.world h.world
  refine ⟨k', hle, ?_⟩
  have hworking := h.working item.source item.line
  rw [stateAfter, Session.runQueued_eq]
  cases hrun : eval limits.rounds limits.depth desk.session.forms desk.session.globals item.program
      desk.world with
  | error halt w =>
    rw [stateAfter_of_error hrun] at hw
    have hdesk := hworking.inWorld hle hw
    cases halt <;> exact hdesk
  | ok value w =>
    rw [stateAfter_of_ok hrun] at hw
    have hdesk := hworking.inWorld hle hw
    by_cases hcannot : desk.CannotLog limits (.evaluated desk.session.path item.line value)
    · simp only [if_pos hcannot]
      exact hdesk
    · simp only [if_neg hcannot]
      exact ((hdesk.noting _).keeping (hvalue value w hrun)).resting

theorem runAll {items : List Queued} (h : inv.OfDesk forms k desk)
    (hitems : ∀ item ∈ items, inv.expr k forms item.program) :
    ∃ k', k ≤ k' ∧ inv.OfDesk forms k' (stateAfter (Session.runAll limits items) desk) := by
  induction items generalizing k desk with
  | nil => exact ⟨k, le_refl k, h⟩
  | cons item rest ih =>
    obtain ⟨hitem, hrest⟩ := List.forall_mem_cons.1 hitems
    obtain ⟨k₁, hle₁, hfirst⟩ := h.runQueued limits hitem
    rw [Session.runAll_cons]
    cases hrun : Session.runQueued limits item desk with
    | ok _ desk' =>
      rw [stateAfter_of_ok hrun] at hfirst
      rw [stateAfter_bind_of_ok hrun]
      obtain ⟨k₂, hle₂, hlast⟩ :=
        ih hfirst fun item hmem => inv.expr_mono hle₁ (hrest item hmem)
      exact ⟨k₂, le_trans hle₁ hle₂, hlast⟩
    | error raised desk' =>
      rw [stateAfter_of_error hrun] at hfirst
      rw [stateAfter_bind_of_error hrun]
      exact ⟨k₁, hle₁, hfirst⟩

theorem pop (h : inv.OfDesk forms k desk) : inv.OfDesk forms k (stateAfter Session.pop desk) := by
  rw [stateAfter, Session.pop_eq]
  cases hresults : desk.session.results with
  | nil => exact h
  | cons value rest =>
    refine ⟨h.read, h.world, h.queue, fun v hv => h.results v ?_⟩
    exact hresults ▸ List.mem_cons_of_mem _ hv

theorem after (hprograms : OfPrograms inv forms) (h : inv.OfDesk forms k desk)
    (steps : List Session.Step) :
    ∃ k', k ≤ k' ∧ inv.OfDesk forms k' (Session.after limits desk steps) := by
  induction steps generalizing k desk with
  | nil => exact ⟨k, le_refl k, h⟩
  | cons step rest ih =>
    obtain ⟨k₁, hle₁, hfirst⟩ : ∃ k', k ≤ k' ∧ inv.OfDesk forms k' (step.after limits desk) := by
      cases step with
      | add source line => exact ⟨k, le_refl k, h.add limits hprograms source line⟩
      | run => exact h.withoutQueue.runAll limits h.queue
      | pop => exact ⟨k, le_refl k, h.pop⟩
    obtain ⟨k₂, hle₂, hlast⟩ := ih hfirst
    exact ⟨k₂, le_trans hle₁ hle₂, hlast⟩

theorem start (path : String) (interactive : Bool) (forms : Registry) (reporter : Reporter)
    (writes verbose : Bool) {w : World} (hw : inv.OfWorld k w) :
    inv.OfDesk forms k (Session.start path interactive forms reporter writes verbose w) :=
  ⟨rfl, (hw.addRoot writes).push (List.forall_mem_nil _) (some w.frames.size), List.forall_mem_nil _,
    List.forall_mem_nil _⟩

end OfDesk

end CallScript.Invariant
