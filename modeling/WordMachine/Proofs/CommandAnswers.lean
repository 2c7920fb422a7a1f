import WordMachine.Proofs.EngineHistory
import Mathlib.Algebra.GroupWithZero.Nat

/-!
# Every command is answered in its turn

Whatever the host and the engine do, the stream of responses is made of one
block for each command, in the order of sending, and a block is complete as soon
as the engine has moved often enough.  The moves that are left before the first
commands are answered are bounded: every move lowers the bound and nothing that
the host does raises it.

Tokens are numbered by the events that supersede runs.  So the token that was
given out for a command is cancelled by such an event exactly if it comes after
the command was sent.
-/

namespace WordMachine

/-- The most moves that the engine makes in the service of a command. -/
def Command.moves (settings : Settings) (command : Command) : Nat := command.turns settings + 1

namespace Engine
namespace Record

variable {record record' : Record} {answers : List (List Response)}
  {states : List SessionState} {request : Request} {engine' : Engine} {count : Nat}

/-! ## Commands that have been answered -/

/-- The number of commands that have been answered. -/
def answered (record : Record) : Nat := record.taken - record.engine.running.toList.length

theorem Idle.taken_eq (hidle : record.Idle answers) : record.taken = answers.length := by
  obtain ⟨done, hsent, hdone⟩ := hidle.sent_eq
  simp [taken, hsent, hdone]

theorem Busy.taken_eq (hbusy : record.Busy answers states request) :
    record.taken = answers.length + 1 := by
  obtain ⟨done, hsent, hdone⟩ := hbusy.sent_eq
  simp [taken, hsent, hdone]
  omega

theorem Idle.answered_eq (hidle : record.Idle answers) : record.answered = answers.length := by
  simp [Record.answered, hidle.taken_eq, hidle.running_eq]

theorem Busy.answered_eq (hbusy : record.Busy answers states request) :
    record.answered = answers.length := by
  obtain ⟨run, hrunning⟩ := hbusy.running_eq
  simp [Record.answered, hbusy.taken_eq, hrunning]

/-- What has been made is the answers, and then some progress for the command being served. -/
theorem Orderly.blocks (horderly : record.Orderly) :
    ∃ (answers : List (List Response)) (states : List SessionState),
      record.Made (answers ++ [states.map .progress]) ∧
        (∀ answer ∈ answers, Response.IsAnswer answer) ∧ record.answered = answers.length := by
  cases horderly with
  | idle answers hidle => exact ⟨answers, [], hidle.opened, hidle.answered, hidle.answered_eq⟩
  | busy answers states request hbusy =>
      exact ⟨answers, states, hbusy.made, hbusy.answered, hbusy.answered_eq⟩

theorem Made.answersTo_eq {blocks : List (List Response)} (hmade : record.Made blocks)
    (number : Nat) : record.answersTo number = blocks[number]?.getD [] := by
  rw [answersTo, hmade.made_eq, filter_numbered]

theorem Made.stream_flatMap {blocks : List (List Response)} (hmade : record.Made blocks)
    (hcount : blocks.length ≤ count) :
    record.received ++ record.engine.responses = (List.range count).flatMap record.answersTo := by
  have hanswers : record.answersTo = fun number => blocks[number]?.getD [] :=
    funext hmade.answersTo_eq
  rw [hmade.stream_eq, hmade.made_eq, map_snd_numbered, hanswers, flatMap_range_getElem?,
    List.take_of_length_le hcount]

/-- Some commands have been answered, the next may have got progress, and the others nothing. -/
theorem Orderly.answersTo_cases (horderly : record.Orderly) (number : Nat) :
    number < record.answered ∧ Response.IsAnswer (record.answersTo number) ∨
      record.answered ≤ number ∧
        (∃ states : List SessionState, record.answersTo number = states.map .progress) ∧
        ∀ later, number < later → record.answersTo later = [] := by
  obtain ⟨answers, states, hmade, hanswered, hcount⟩ := horderly.blocks
  have hnone : ∀ later, record.answered < later → record.answersTo later = [] := by
    intro later hlater
    have hbeyond : (answers ++ [states.map Response.progress]).length ≤ later := by
      rw [List.length_append, List.length_singleton, ← hcount]
      exact hlater
    rw [hmade.answersTo_eq, List.getElem?_eq_none hbeyond]
    rfl
  rcases Nat.lt_trichotomy number record.answered with hlt | rfl | hgt
  · refine .inl ⟨hlt, ?_⟩
    rw [hcount] at hlt
    rw [hmade.answersTo_eq, List.getElem?_append_left hlt, List.getElem?_eq_getElem hlt]
    exact hanswered _ (List.getElem_mem hlt)
  · refine .inr ⟨le_rfl, ⟨states, ?_⟩, hnone⟩
    simp [hmade.answersTo_eq, hcount]
  · refine .inr ⟨hgt.le, ⟨[], hnone number hgt⟩, ?_⟩
    intro later hlater
    exact hnone later (hgt.trans hlater)

/-- The commands that are queued are the last that were sent, after the one being served. -/
theorem Orderly.sent_eq (horderly : record.Orderly) :
    ∃ done, record.sent = done ++ record.engine.queue ∧
      ∀ run token, record.engine.running = some (run, token) →
        ∃ request, done.getLast? = some request ∧ request.token = token := by
  cases horderly with
  | idle answers hidle =>
      obtain ⟨done, hsent, -⟩ := hidle.sent_eq
      refine ⟨done, hsent, ?_⟩
      intro run token hrunning
      cases hidle.running_eq.symm.trans hrunning
  | busy answers states request hbusy =>
      obtain ⟨done, hsent, -⟩ := hbusy.sent_eq
      obtain ⟨run, hserved⟩ := hbusy.running_eq
      refine ⟨done ++ [request], by simp [hsent], ?_⟩
      intro run token hrunning
      cases hserved.symm.trans hrunning
      exact ⟨request, by simp, rfl⟩

theorem Orderly.stream_eq (horderly : record.Orderly) :
    record.received ++ record.engine.responses =
      (List.range record.sent.length).flatMap record.answersTo := by
  cases horderly with
  | idle answers hidle =>
      obtain ⟨done, hsent, hdone⟩ := hidle.sent_eq
      apply hidle.made.stream_flatMap
      simp [hsent, hdone]
  | busy answers states request hbusy =>
      obtain ⟨done, hsent, hdone⟩ := hbusy.sent_eq
      apply hbusy.made.stream_flatMap
      simp [hsent, hdone]

/-! ## The moves that are left -/

/-- The most moves that are left before the first commands are answered. -/
def movesLeft (record : Record) (count : Nat) : Nat :=
  record.engine.turnsLeft +
    (((record.sent.take count).drop record.taken).map fun request =>
      request.command.moves record.engine.session.settings).sum

theorem HostStep.movesLeft_eq {extra : List Request} (hstep : record.HostStep record' extra)
    (hcount : count ≤ record.sent.length) : record'.movesLeft count = record.movesLeft count := by
  have hturns : record'.engine.turnsLeft = record.engine.turnsLeft := by
    simp [turnsLeft, hstep.running_eq]
  have htaken : record'.taken = record.taken := by
    simp [taken, hstep.sent_eq, hstep.queue_eq, Nat.add_sub_add_right]
  have hsent : record'.sent.take count = record.sent.take count := by
    rw [hstep.sent_eq, List.take_append_of_le_length hcount]
  simp [movesLeft, hturns, htaken, hsent, hstep.settings_eq]

theorem Busy.movesLeft_moved (hbusy : record.Busy answers states request)
    (hmove : record.engine.move? = some engine') :
    (record.moved engine').movesLeft count < record.movesLeft count := by
  obtain ⟨run, hrunning⟩ := hbusy.running_eq
  rcases move?_cases hmove with ⟨_, _, hgoes, rfl⟩ | ⟨_, _, hstopped, _⟩
  · cases hrunning.symm.trans hgoes
    have hturns := record.engine.turnsLeft_takeTurn run request.token
    have hleft : record.engine.turnsLeft = run.remaining + 1 := by simp [turnsLeft, hrunning]
    simp only [movesLeft, taken, engine_moved, sent_moved, takeTurn_queue, settings_takeTurn, hleft]
    omega
  · cases hrunning.symm.trans hstopped

theorem Idle.movesLeft_moved (hidle : record.Idle answers)
    (hunanswered : record.answered < count) (hmove : record.engine.move? = some engine') :
    (record.moved engine').movesLeft count < record.movesLeft count := by
  rcases move?_cases hmove with ⟨_, _, hgoes, _⟩ | ⟨request, queue, _, hqueue, rfl⟩
  · cases hidle.running_eq.symm.trans hgoes
  · obtain ⟨done, hsent, hdone⟩ := hidle.sent_eq
    rw [hidle.answered_eq] at hunanswered
    have hrequest : (record.sent.take count)[answers.length]? = some request := by
      rw [List.getElem?_take_of_lt hunanswered, hsent, hqueue, ← hdone]
      simp
    have hdrop : (record.sent.take count).drop answers.length =
        request :: (record.sent.take count).drop (answers.length + 1) := by
      obtain ⟨hlt, hget⟩ := List.getElem?_eq_some_iff.mp hrequest
      rw [List.drop_eq_getElem_cons hlt, hget]
    have htaken : record.sent.length - queue.length = answers.length + 1 := by
      simp [hsent, hqueue, ← hdone]
      omega
    have hturns := turnsLeft_takeUp { record.engine with queue } request
    dsimp only at hturns
    simp only [movesLeft, taken, engine_moved, sent_moved, takeUp_queue, settings_takeUp, htaken]
    rw [← taken, hidle.taken_eq, hdrop]
    simp only [List.map_cons, List.sum_cons, Command.moves]
    omega

theorem Orderly.movesLeft_pos (horderly : record.Orderly) (hcount : count ≤ record.sent.length)
    (hunanswered : record.answered < count) : 0 < record.movesLeft count := by
  cases horderly with
  | idle answers hidle =>
      rw [hidle.answered_eq] at hunanswered
      have hlt : answers.length < (record.sent.take count).length := by
        rw [List.length_take]
        omega
      rw [movesLeft, hidle.taken_eq, List.drop_eq_getElem_cons hlt]
      simp only [List.map_cons, List.sum_cons, Command.moves]
      omega
  | busy answers states request hbusy =>
      obtain ⟨run, hrunning⟩ := hbusy.running_eq
      simp only [movesLeft, turnsLeft, hrunning]
      omega

theorem answered_of_moved
    (hmoved : (∃ answer, record.Idle (answers ++ [answer])) ∨
      ∃ states, record.Busy answers states request) : answers.length ≤ record.answered := by
  rcases hmoved with ⟨answer, hidle⟩ | ⟨states, hbusy⟩
  · simp [hidle.answered_eq]
  · exact hbusy.answered_eq.ge

theorem Orderly.answered_after (horderly : record.Orderly) (event : Event) :
    record.answered ≤ (record.after event).answered := by
  rcases record.after_cases event with
    ⟨-, extra, hstep⟩ | ⟨-, ⟨engine', hmove, hafter⟩ | ⟨-, hafter⟩⟩
  · cases horderly with
    | idle answers hidle => rw [hidle.answered_eq, (hidle.hostStep hstep).answered_eq]
    | busy answers states request hbusy =>
        rw [hbusy.answered_eq, (hbusy.hostStep hstep).answered_eq]
  · rw [hafter]
    cases horderly with
    | idle answers hidle =>
        obtain ⟨_, _, _, hmoved⟩ := hidle.moved hmove
        rw [hidle.answered_eq]
        exact answered_of_moved hmoved
    | busy answers states request hbusy =>
        rw [hbusy.answered_eq]
        exact answered_of_moved (hbusy.moved hmove)
  · rw [hafter]

/-- As long as one of the first commands is not answered, each move lowers what is left. -/
theorem Orderly.movesLeft_after (horderly : record.Orderly) (event : Event)
    (hcount : count ≤ record.sent.length) (hunanswered : record.answered < count) :
    (record.after event).movesLeft count + event.isMove.toNat ≤ record.movesLeft count := by
  rcases record.after_cases event with
    ⟨hevent, extra, hstep⟩ | ⟨hevent, ⟨engine', hmove, hafter⟩ | ⟨hrest, -⟩⟩
  · rw [hevent, hstep.movesLeft_eq hcount]
    exact le_rfl
  · rw [hevent, hafter]
    cases horderly with
    | idle answers hidle => exact hidle.movesLeft_moved hunanswered hmove
    | busy answers states request hbusy => exact hbusy.movesLeft_moved hmove
  · exfalso
    obtain ⟨hrunning, hqueue⟩ := move?_eq_none hrest
    simp only [Record.answered, taken, hrunning, hqueue] at hunanswered
    simp at hunanswered
    omega

theorem Orderly.answered_afterAll (horderly : record.Orderly) (events : List Event) :
    record.answered ≤ (record.afterAll events).answered := by
  induction events generalizing record with
  | nil => exact le_rfl
  | cons event events ih =>
      exact (horderly.answered_after event).trans (ih (horderly.after event))

theorem Orderly.movesLeft_afterAll (horderly : record.Orderly) (events : List Event)
    (hcount : count ≤ record.sent.length)
    (hunanswered : (record.afterAll events).answered < count) :
    (record.afterAll events).movesLeft count + events.countP Event.isMove ≤
      record.movesLeft count := by
  induction events generalizing record with
  | nil => exact le_rfl
  | cons event events ih =>
      have hevents := horderly.answered_afterAll (event :: events)
      have hsent : count ≤ (record.after event).sent.length :=
        hcount.trans (record.sent_prefix_after event).length_le
      have hevent := horderly.movesLeft_after event hcount (hevents.trans_lt hunanswered)
      have hlater := ih (horderly.after event) hsent hunanswered
      rw [afterAll_cons, List.countP_cons]
      cases hmove : event.isMove with
      | false | true =>
          simp only [hmove, Bool.toNat_false, Bool.toNat_true] at hevent
          simp
          omega

/-- With enough moves, every command that has been sent is answered. -/
theorem Orderly.answered_of_moves (horderly : record.Orderly) (events : List Event)
    (hmoves : record.movesLeft record.sent.length ≤ events.countP Event.isMove) :
    record.sent.length ≤ (record.afterAll events).answered := by
  by_contra hunanswered
  have hlt : (record.afterAll events).answered < record.sent.length :=
    Nat.lt_of_not_le hunanswered
  have hsent := (record.sent_prefix_afterAll events).length_le
  have hleft := horderly.movesLeft_afterAll events le_rfl hlt
  have hpos := (horderly.afterAll events).movesLeft_pos hsent hlt
  omega

/-! ## Tokens -/

/-- The token of some command that had been sent was cancelled by itself. -/
def Revoked (record : Record) (events : List Event) (token : CancelToken) : Prop :=
  ∃ before number after request,
    events = before ++ .cancelSent number :: after ∧
      (record.afterAll before).sent[number]? = some request ∧ request.token = token

theorem revoked_nil (token : CancelToken) : ¬ record.Revoked [] token := by
  rintro ⟨before, number, after, request, hevents, -⟩
  simp at hevents

theorem revoked_cons {event : Event} {events : List Event} {token : CancelToken} :
    record.Revoked (event :: events) token ↔
      (∃ number request, event = .cancelSent number ∧ record.sent[number]? = some request ∧
        request.token = token) ∨ (record.after event).Revoked events token := by
  constructor
  · rintro ⟨before, number, after, request, hevents, hsent, htoken⟩
    rcases List.cons_eq_append_iff.mp hevents with ⟨rfl, hnow⟩ | ⟨earlier, rfl, rfl⟩
    · cases hnow
      exact .inl ⟨number, request, rfl, hsent, htoken⟩
    · exact .inr ⟨earlier, number, after, request, rfl, hsent, htoken⟩
  · rintro (⟨number, request, rfl, hsent, htoken⟩ |
      ⟨earlier, number, after, request, rfl, hsent, htoken⟩)
    · exact ⟨[], number, events, request, rfl, hsent, htoken⟩
    · exact ⟨event :: earlier, number, after, request, rfl, hsent, htoken⟩

/-- The tokens that an event cancels. -/
def cancels (record : Record) : Event → List CancelToken
  | .cancelSent number => (record.sent[number]?.map Request.token).toList
  | event => if event.supersedes then [record.engine.current] else []

theorem tokens_after (record : Record) (event : Event) :
    (record.after event).engine.current = record.engine.current + event.supersedes.toNat ∧
      (record.after event).engine.cancelled =
        record.cancels event ++ record.engine.cancelled := by
  cases event with
  | send command =>
      simp only [after, send, cancels, Event.supersedes]
      split
      next hcommand => simp [hcommand, Engine.cancel, cancelToken]
      next hcommand => simp [hcommand]
  | cancel | changeCalls => exact ⟨rfl, rfl⟩
  | cancelSent number =>
      simp only [after, cancels]
      cases record.sent[number]? with
      | none | some => exact ⟨rfl, rfl⟩
  | receive =>
      simp only [after, take?]
      cases record.engine.responses with
      | nil | cons => exact ⟨rfl, rfl⟩
  | move =>
      simp only [after]
      split
      next hmove => exact move?_tokens hmove
      · exact ⟨rfl, rfl⟩

theorem mem_cancels {event : Event} {token : CancelToken} :
    token ∈ record.cancels event ↔
      (event.supersedes = true ∧ token = record.engine.current) ∨
        ∃ number request, event = .cancelSent number ∧ record.sent[number]? = some request ∧
          request.token = token := by
  cases event with
  | cancelSent number => simp [cancels, Event.supersedes]
  | send command =>
      cases hcommand : command.supersedes with
      | false | true => simp [cancels, Event.supersedes, hcommand]
  | cancel | receive | move | changeCalls => simp [cancels, Event.supersedes]

theorem current_afterAll (record : Record) (events : List Event) :
    (record.afterAll events).engine.current =
      record.engine.current + events.countP Event.supersedes := by
  induction events generalizing record with
  | nil => rfl
  | cons event events ih =>
      rw [afterAll_cons, ih, (record.tokens_after event).1, List.countP_cons]
      cases event.supersedes with
      | false => rfl
      | true => exact Nat.add_right_comm _ _ _

theorem replaced_iff {replaced : Bool} {token current last : Nat}
    (hlast : current + replaced.toNat ≤ last) :
    (replaced = true ∧ token = current) ∨ (current + replaced.toNat ≤ token ∧ token < last) ↔
      current ≤ token ∧ token < last := by
  cases replaced with
  | false => simp
  | true =>
      rw [Bool.toNat_true] at hlast ⊢
      simp only [true_and]
      omega

/-- A token is cancelled when it is replaced, or else by itself. -/
theorem isCancelled_afterAll (record : Record) (events : List Event) (token : CancelToken) :
    (record.afterAll events).engine.isCancelled token = true ↔
      record.engine.isCancelled token = true ∨
        (record.engine.current ≤ token ∧ token < (record.afterAll events).engine.current) ∨
        record.Revoked events token := by
  induction events generalizing record with
  | nil =>
      have hnone : ¬ (record.engine.current ≤ token ∧ token < record.engine.current) :=
        fun hboth => absurd hboth.2 hboth.1.not_gt
      simp [revoked_nil, hnone]
  | cons event events ih =>
      obtain ⟨hcurrent, hcancelled⟩ := record.tokens_after event
      have hafter : (record.after event).engine.isCancelled token = true ↔
          token ∈ record.cancels event ∨ record.engine.isCancelled token = true := by
        simp [isCancelled, hcancelled]
      have hlast : record.engine.current + event.supersedes.toNat ≤
          ((record.after event).afterAll events).engine.current := by
        rw [current_afterAll, hcurrent]
        exact Nat.le_add_right _ _
      rw [afterAll_cons, ih, hafter, mem_cancels, revoked_cons, hcurrent, ← replaced_iff hlast]
      simp only [or_assoc, or_comm, or_left_comm]

theorem length_sent_afterAll (session : Session) (events : List Event) :
    ((start session).afterAll events).sent.length =
      (events.filterMap Event.command?).length := by
  have hsent := congrArg List.length ((start session).sent_afterAll events)
  simpa [start] using hsent

/-- A command is sent under the token that is current right after it was sent. -/
theorem sent_send (session : Session) (before : List Event) (command : Command)
    (after : List Event) :
    let token := ((start session).afterAll (before ++ [.send command])).engine.current
    ((start session).afterAll (before ++ .send command :: after)).sent[
        (before.filterMap Event.command?).length]? = some { command, token } := by
  intro token
  have hsent : ((start session).afterAll (before ++ [.send command])).sent =
      ((start session).afterAll before).sent ++ [Request.mk command token] := by
    simp only [token, afterAll_append]
    rfl
  obtain ⟨later, hlater⟩ :=
    sent_prefix_afterAll ((start session).afterAll (before ++ [.send command])) after
  rw [← afterAll_append, List.append_assoc, List.singleton_append] at hlater
  rw [← hlater, hsent, ← length_sent_afterAll session before]
  simp

theorem isCancelled_sent (session : Session) (before : List Event) (command : Command)
    (after : List Event) :
    let record := (start session).afterAll (before ++ .send command :: after)
    let token := ((start session).afterAll (before ++ [.send command])).engine.current
    record.engine.isCancelled token = true ↔
      (∃ event ∈ after, event.supersedes = true) ∨
        (start session).Revoked (before ++ .send command :: after) token := by
  intro record token
  have hcurrent : record.engine.current = token + after.countP Event.supersedes := by
    rw [← current_afterAll, ← afterAll_append, List.append_assoc, List.singleton_append]
  have hreplaced : (start session).engine.current ≤ token ∧ token < record.engine.current ↔
      ∃ event ∈ after, event.supersedes = true := by
    rw [hcurrent, ← List.countP_pos_iff]
    constructor
    · intro hbetween
      exact Nat.pos_of_lt_add_right hbetween.2
    · intro hpos
      exact ⟨Nat.zero_le _, Nat.lt_add_of_pos_right hpos⟩
  rw [isCancelled_afterAll, hreplaced]
  simp [start, isCancelled]

end Record

/-! ## The protocol -/

/-- The stream of responses has a block for each command, in the order of sending.  A block is
some progress and one terminal response, but for the command being served, and blocks get
complete.  A token is cancelled by the events that supersede its command, and by itself. -/
theorem commands_are_answered_in_order (session : Session) (events : List Event) :
    let record := (Record.start session).afterAll events
    record.sent.map Request.command = events.filterMap Event.command? ∧
      record.received ++ record.engine.responses =
        (List.range record.sent.length).flatMap record.answersTo ∧
      (∀ number, Response.IsAnswer (record.answersTo number) ∨
        (∃ states : List SessionState, record.answersTo number = states.map .progress) ∧
          ∀ later, number < later → record.answersTo later = []) ∧
      (∃ moves, ∀ later : List Event, moves ≤ later.countP Event.isMove →
        ∀ number < record.sent.length,
          Response.IsAnswer ((record.afterAll later).answersTo number)) ∧
      (∃ done, record.sent = done ++ record.engine.queue ∧
        ∀ run token, record.engine.running = some (run, token) →
          ∃ request, done.getLast? = some request ∧ request.token = token) ∧
      ∀ before command after, events = before ++ .send command :: after →
        ∃ request, record.sent[(before.filterMap Event.command?).length]? = some request ∧
          (record.engine.isCancelled request.token = true ↔
            (∃ event ∈ after, event.supersedes = true) ∨
              (Record.start session).Revoked events request.token) := by
  intro record
  have horderly : record.Orderly := (Record.start_orderly session).afterAll events
  refine ⟨?_, horderly.stream_eq, ?_, ?_, ?_, ?_⟩
  · exact (Record.start session).sent_afterAll events
  · intro number
    rcases horderly.answersTo_cases number with ⟨-, hanswer⟩ | ⟨-, hrest⟩
    · exact .inl hanswer
    · exact .inr hrest
  · refine ⟨record.movesLeft record.sent.length, ?_⟩
    intro later hmoves number hnumber
    have hanswered := horderly.answered_of_moves later hmoves
    rcases (horderly.afterAll later).answersTo_cases number with ⟨-, hanswer⟩ | ⟨hlate, -⟩
    · exact hanswer
    · omega
  · exact horderly.sent_eq
  · rintro before command after rfl
    exact ⟨_, Record.sent_send session before command after,
      Record.isCancelled_sent session before command after⟩

end Engine
end WordMachine
