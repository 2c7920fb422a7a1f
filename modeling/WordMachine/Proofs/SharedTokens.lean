import WordMachine.Proofs.CommandAnswers

/-!
# Commands that share a token

A token is not a command's own.  Every command that is sent between two events
that supersede runs gets the token that was made at the first of them, so a
token that the host cancels ends the run of each of these commands, those that
it has yet to send among them.  It ends no other run.
-/

namespace WordMachine
namespace Engine

/-- How often runs have been superseded, which is the token of the commands sent next. -/
def generation (events : List Event) : CancelToken := events.countP Event.supersedes

namespace Record

theorem exists_send {events : List Event} {command : Command} {number : Nat}
    (hcommand : (events.filterMap Event.command?)[number]? = some command) :
    ∃ before after,
      events = before ++ .send command :: after ∧
        (before.filterMap Event.command?).length = number := by
  induction events generalizing number with
  | nil => simp at hcommand
  | cons event events ih =>
      cases hevent : event.command? with
      | none =>
          rw [List.filterMap_cons_none hevent] at hcommand
          obtain ⟨before, after, rfl, hnumber⟩ := ih hcommand
          refine ⟨event :: before, after, rfl, ?_⟩
          rw [List.filterMap_cons_none hevent, hnumber]
      | some first =>
          rw [List.filterMap_cons_some hevent] at hcommand
          cases number with
          | zero =>
              cases event with
              | send sent =>
                  cases hevent
                  cases hcommand
                  exact ⟨[], events, rfl, rfl⟩
              | _ => cases hevent
          | succ number =>
              obtain ⟨before, after, rfl, hnumber⟩ := ih hcommand
              refine ⟨event :: before, after, rfl, ?_⟩
              rw [List.filterMap_cons_some hevent, List.length_cons, hnumber]

/-- Where a command was sent, and the token that it was sent under. -/
theorem exists_send_of_sent {session : Session} {events : List Event} {number : Nat}
    {request : Request}
    (hrequest : ((start session).afterAll events).sent[number]? = some request) :
    ∃ before after,
      events = before ++ .send request.command :: after ∧
        (before.filterMap Event.command?).length = number ∧
          request.token = generation (before ++ [.send request.command]) := by
  have hcommand : (events.filterMap Event.command?)[number]? = some request.command := by
    have hsent : ((start session).afterAll events).sent.map Request.command =
        events.filterMap Event.command? := (start session).sent_afterAll events
    rw [← hsent, List.getElem?_map, hrequest]
    rfl
  obtain ⟨before, after, rfl, rfl⟩ := exists_send hcommand
  refine ⟨before, after, rfl, rfl, ?_⟩
  have hsent :=
    Option.some.inj (hrequest.symm.trans (sent_send session before request.command after))
  rw [hsent, current_afterAll]
  exact Nat.zero_add _

end Record

/-- A run is ended as cancelled only if runs have been superseded after its command was sent, or
if the host has cancelled the token of a command of the same generation. -/
theorem cancelled_within_generation (session : Session) (events : List Event) (number : Nat)
    (state : SessionState)
    (hcancelled :
      (number, .paused .cancelled state) ∈ ((Record.start session).afterAll events).made) :
    ∃ before command after,
      events = before ++ .send command :: after ∧
        (before.filterMap Event.command?).length = number ∧
        ((∃ event ∈ after, event.supersedes = true) ∨
          ∃ earlier other between later,
            events = earlier ++ .send other :: between ++
              .cancelSent (earlier.filterMap Event.command?).length :: later ∧
            generation (earlier ++ [.send other]) = generation (before ++ [.send command])) := by
  have horderly := (Record.start_orderly session).afterAll events
  obtain ⟨request, hrequest, htoken⟩ := horderly.cancelled number state hcancelled
  obtain ⟨before, after, rfl, hnumber, hgeneration⟩ := Record.exists_send_of_sent hrequest
  refine ⟨before, request.command, after, rfl, hnumber, ?_⟩
  have hcurrent : ((Record.start session).afterAll
      (before ++ [.send request.command])).engine.current = request.token := by
    rw [Record.current_afterAll, hgeneration]
    exact Nat.zero_add _
  rw [← hcurrent] at htoken
  rcases (Record.isCancelled_sent session before request.command after).mp htoken with
    hsuperseded | ⟨sent, place, later, other, hevents, hother, hshared⟩
  · exact .inl hsuperseded
  · obtain ⟨earlier, between, rfl, rfl, hsame⟩ := Record.exists_send_of_sent hother
    refine .inr ⟨earlier, other.command, between, later, hevents, ?_⟩
    rw [← hsame, hshared, hcurrent, hgeneration]

/-- An empty program is loaded, and runs look at the host after each step. -/
def emptySession : Session :=
  (Session.start { yieldInterval := 1 } .standard).load
    { instructions := #[], symbols := {}, data := #[], textStart := 0, dataStart := 0 }

/-- The first command is answered, then its token is cancelled, and then a run is sent. -/
def lateCancel : List Event :=
  [.send .getDisassembly, .move, .receive, .cancelSent 0, .send (.resume none), .move, .move]

theorem cancelled_of_pauseReason? {response : Response}
    (hreason : response.pauseReason? = some "cancelled") :
    ∃ state, response = .paused .cancelled state := by
  cases response with
  | paused reason state =>
      cases reason with
      | cancelled => exact ⟨state, rfl⟩
      | _ => simp [Response.pauseReason?, PauseReason.name] at hreason
  | stepComplete state hits =>
      cases hits with
      | nil => cases hreason
      | cons => simp [Response.pauseReason?] at hreason
  | _ => cases hreason

theorem cancelled_lateCancel :
    ∃ state,
      (1, .paused .cancelled state) ∈ ((Record.start emptySession).afterAll lateCancel).made := by
  have hreasons : ((Record.start emptySession).afterAll lateCancel).made.map
      (fun (number, response) => (number, response.pauseReason?)) =
        [(0, none), (1, some "cancelled")] := by
    decide +kernel
  have hmem : (1, some "cancelled") ∈ ((Record.start emptySession).afterAll lateCancel).made.map
      (fun (number, response) => (number, response.pauseReason?)) := by
    simp [hreasons]
  obtain ⟨⟨number, response⟩, hmade, heq⟩ := List.mem_map.mp hmem
  obtain ⟨rfl, hreason⟩ := Prod.mk.inj heq
  obtain ⟨state, rfl⟩ := cancelled_of_pauseReason? hreason
  exact ⟨state, hmade⟩

theorem cancelled_within_generation_lateCancel :
    ∃ state,
      (1, .paused .cancelled state) ∈ ((Record.start emptySession).afterAll lateCancel).made ∧
        ∃ before command after,
          lateCancel = before ++ .send command :: after ∧
            (before.filterMap Event.command?).length = 1 ∧
            ((∃ event ∈ after, event.supersedes = true) ∨
              ∃ earlier other between later,
                lateCancel = earlier ++ .send other :: between ++
                  .cancelSent (earlier.filterMap Event.command?).length :: later ∧
                generation (earlier ++ [.send other]) =
                  generation (before ++ [.send command])) := by
  obtain ⟨state, hcancelled⟩ := cancelled_lateCancel
  exact ⟨state, hcancelled, cancelled_within_generation emptySession lateCancel 1 state hcancelled⟩

/-- Nothing is superseded and no token but the first is cancelled, and yet the run is ended. -/
theorem not_cancelled_by_own_token :
    ¬ ∀ (session : Session) (events : List Event) (number other : Nat) (state : SessionState),
      (∀ event ∈ events, event.supersedes = false) →
        (∀ place, Event.cancelSent place ∈ events → place = number) → other ≠ number →
          (other, .paused .cancelled state) ∉ ((Record.start session).afterAll events).made := by
  intro hown
  obtain ⟨state, hcancelled⟩ := cancelled_lateCancel
  apply hown emptySession lateCancel 0 1 state _ _ _ hcancelled
  · simp [lateCancel, Event.supersedes, Command.supersedes]
  · simp [lateCancel]
  · decide

end Engine
end WordMachine
