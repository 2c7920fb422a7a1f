import WordMachine.Proofs.EngineMoves
import WordMachine.Proofs.SessionHistory
import Mathlib.Data.List.Infix

/-!
# Histories of an engine

The host and the engine act in turn, in any order.  A record follows what they
do: the requests that have been sent, the responses that have been made, each
with the number of the command that was being served, and the responses that
have been received.  Whatever the order of events, the responses that are made
fall into one block for each command that has been taken up, and every block but
that of a run still under way is some progress and then one terminal response.
-/

namespace WordMachine

/-- Some progress and then one terminal response. -/
def Response.IsAnswer (responses : List Response) : Prop :=
  ∃ (states : List SessionState) (last : Response),
    responses = states.map Response.progress ++ [last] ∧ last.isTerminal = true

namespace Engine

inductive Event
  | send (command : Command)
  /-- Cancel every command. -/
  | cancel
  /-- Cancel the token that was given out for a command, told by its place among those sent. -/
  | cancelSent (number : Nat)
  /-- Take the first response if one is waiting. -/
  | receive
  /-- Make a move if there is anything to do. -/
  | move
  /-- Answer system calls in another way from now on. -/
  | changeCalls (calls : Handler)

namespace Event

def command? : Event → Option Command
  | send command => some command
  | _ => none

/-- Whether the event makes every run that is still under way pointless. -/
def supersedes : Event → Bool
  | send command => command.supersedes
  | cancel => true
  | _ => false

def isMove : Event → Bool
  | move => true
  | _ => false

end Event

structure Record where
  engine : Engine
  /-- The requests in the order in which they were sent. -/
  sent : List Request := []
  /-- The responses that have been made, in order, with the number of the command served. -/
  made : List (Nat × Response) := []
  /-- The responses that have been received, in order. -/
  received : List Response := []

namespace Record

def start (session : Session) : Record := { engine := { session } }

/-- The number of commands that have been taken up. -/
def taken (record : Record) : Nat := record.sent.length - record.engine.queue.length

/-- The engine has moved.  What it made then is for the command that it took up last. -/
def moved (record : Record) (engine : Engine) : Record :=
  let next := { record with engine }
  { next with
    made := record.made ++
      (engine.responses.drop record.engine.responses.length).map fun response =>
        (next.taken - 1, response) }

def after (record : Record) : Event → Record
  | .send command =>
      let (token, engine) := record.engine.send command
      { record with engine, sent := record.sent ++ [{ command, token }] }
  | .cancel => { record with engine := record.engine.cancel }
  | .cancelSent number =>
      match record.sent[number]? with
      | some request => { record with engine := record.engine.cancelToken request.token }
      | none => record
  | .receive =>
      match record.engine.take? with
      | some (response, engine) =>
          { record with engine, received := record.received ++ [response] }
      | none => record
  | .move =>
      match record.engine.move? with
      | some engine => record.moved engine
      | none => record
  | .changeCalls calls =>
      { record with
        engine := { record.engine with session := record.engine.session.rehost calls } }

def afterAll (record : Record) (events : List Event) : Record := events.foldl after record

/-- The responses that have been made while a command was being served. -/
def answersTo (record : Record) (number : Nat) : List Response :=
  (record.made.filter (·.1 == number)).map (·.2)

@[simp]
theorem engine_moved (record : Record) (engine : Engine) :
    (record.moved engine).engine = engine := rfl

@[simp]
theorem sent_moved (record : Record) (engine : Engine) :
    (record.moved engine).sent = record.sent := rfl

@[simp]
theorem afterAll_nil (record : Record) : record.afterAll [] = record := rfl

@[simp]
theorem afterAll_cons (record : Record) (event : Event) (events : List Event) :
    record.afterAll (event :: events) = (record.after event).afterAll events := rfl

@[simp]
theorem afterAll_append (record : Record) (events later : List Event) :
    record.afterAll (events ++ later) = (record.afterAll events).afterAll later :=
  List.foldl_append

theorem afterAll_induction {P : Record → Prop}
    (hafter : ∀ record event, P record → P (record.after event)) {record : Record}
    (h : P record) (events : List Event) : P (record.afterAll events) := by
  induction events generalizing record with
  | nil => exact h
  | cons event events ih => exact ih (hafter record event h)

theorem sent_after (record : Record) (event : Event) :
    (record.after event).sent.map Request.command =
      record.sent.map Request.command ++ event.command?.toList := by
  cases event with
  | send command => simp [after, send, Event.command?]
  | cancel | changeCalls => simp [after, Event.command?]
  | cancelSent | receive | move =>
      simp only [after, Event.command?, Option.toList_none, List.append_nil]
      split
      all_goals rfl

theorem sent_afterAll (record : Record) (events : List Event) :
    (record.afterAll events).sent.map Request.command =
      record.sent.map Request.command ++ events.filterMap Event.command? := by
  induction events generalizing record with
  | nil => simp
  | cons event events ih =>
      rw [afterAll_cons, ih, sent_after]
      cases hcommand : event.command? with
      | none => simp [hcommand]
      | some command => simp [hcommand]

end Record

/-! ## Blocks of responses -/

/-- The responses of some blocks one after the other, each with the number of its block. -/
def numbered (blocks : List (List Response)) : List (Nat × Response) :=
  blocks.zipIdx.flatMap fun (block, number) => block.map fun response => (number, response)

section Numbered

variable {blocks : List (List Response)} {block responses : List Response} {number : Nat}

theorem numbered_append_singleton :
    numbered (blocks ++ [block]) =
      numbered blocks ++ block.map fun response => (blocks.length, response) := by
  simp [numbered, List.zipIdx_append]

theorem numbered_append_nil : numbered (blocks ++ [[]]) = numbered blocks := by
  simp [numbered_append_singleton]

theorem numbered_extend :
    numbered (blocks ++ [block]) ++ responses.map (fun response => (blocks.length, response)) =
      numbered (blocks ++ [block ++ responses]) := by
  simp [numbered_append_singleton]

theorem map_snd_numbered : (numbered blocks).map (·.2) = blocks.flatten := by
  induction blocks using List.reverseRecOn with
  | nil => rfl
  | append_singleton blocks block ih =>
      rw [numbered_append_singleton, List.map_append, ih]
      simp [Function.comp_def]

theorem filter_numbered :
    ((numbered blocks).filter (·.1 == number)).map (·.2) = blocks[number]?.getD [] := by
  induction blocks using List.reverseRecOn with
  | nil => rfl
  | append_singleton blocks block ih =>
      rw [numbered_append_singleton, List.filter_append, List.map_append, ih]
      by_cases hlast : blocks.length = number
      · subst hlast
        simp [List.filter_map, Function.comp_def]
      · have hother : (block.map fun response => (blocks.length, response)).filter
            (·.1 == number) = [] := by
          simp [hlast]
        rw [hother, List.getElem?_append]
        split
        · simp
        next hbeyond =>
          have hpast : [block][number - blocks.length]? = none := by
            simp only [List.getElem?_eq_none_iff, List.length_singleton]
            omega
          have hnone : blocks[number]? = none := by simpa using hbeyond
          simp [hpast, hnone]

theorem flatMap_range_getElem? (count : Nat) :
    (List.range count).flatMap (fun number => blocks[number]?.getD []) =
      (blocks.take count).flatten := by
  induction count with
  | zero => rfl
  | succ count ih =>
      rw [List.range_succ, List.flatMap_append, ih, List.take_add_one, List.flatten_append]
      cases hblock : blocks[count]? with
      | none => simp [hblock]
      | some block => simp [hblock]

end Numbered

/-! ## The blocks of a record -/

namespace Record

variable {record record' : Record}

/-- What an event of the host leaves as it is. -/
structure HostStep (record record' : Record) (extra : List Request) : Prop where
  sent_eq : record'.sent = record.sent ++ extra
  queue_eq : record'.engine.queue = record.engine.queue ++ extra
  running_eq : record'.engine.running = record.engine.running
  settings_eq : record'.engine.session.settings = record.engine.session.settings
  made_eq : record'.made = record.made
  stream_eq :
    record'.received ++ record'.engine.responses = record.received ++ record.engine.responses
  isCancelled : ∀ token,
    record.engine.isCancelled token = true → record'.engine.isCancelled token = true

theorem HostStep.refl (record : Record) : record.HostStep record [] := by
  constructor
  all_goals simp

theorem after_hostStep (record : Record) {event : Event} (hevent : event.isMove = false) :
    ∃ extra, record.HostStep (record.after event) extra := by
  cases event with
  | move => cases hevent
  | send command =>
      refine ⟨[{ command, token := (record.engine.send command).1 }], rfl, ?_, ?_, ?_, rfl, ?_, ?_⟩
      all_goals
        simp only [after, send]
        split
        all_goals simp +contextual [cancel, cancelToken, isCancelled]
  | cancel =>
      refine ⟨[], ?_⟩
      constructor
      all_goals simp +contextual [after, cancel, cancelToken, isCancelled]
  | cancelSent number =>
      refine ⟨[], ?_⟩
      simp only [after]
      split
      · constructor
        all_goals simp +contextual [cancelToken, isCancelled]
      · exact .refl record
  | receive =>
      refine ⟨[], ?_⟩
      simp only [after, take?]
      split
      next htake =>
        split at htake
        · cases htake
        next hresponses =>
          cases htake
          constructor
          all_goals simp +contextual [hresponses, isCancelled]
      · exact .refl record
  | changeCalls calls =>
      refine ⟨[], ?_⟩
      constructor
      all_goals simp +contextual [after, Session.rehost, isCancelled]

/-- An event is an event of the host, or a move that is made or cannot be made. -/
theorem after_cases (record : Record) (event : Event) :
    (event.isMove = false ∧ ∃ extra, record.HostStep (record.after event) extra) ∨
      event.isMove = true ∧
        ((∃ engine', record.engine.move? = some engine' ∧
            record.after event = record.moved engine') ∨
          record.engine.move? = none ∧ record.after event = record) := by
  cases hevent : event.isMove with
  | false => exact .inl ⟨rfl, record.after_hostStep hevent⟩
  | true =>
      cases event with
      | move =>
          refine .inr ⟨rfl, ?_⟩
          simp only [after]
          split
          next engine' hmove => exact .inl ⟨engine', hmove, rfl⟩
          next hmove => exact .inr ⟨hmove, rfl⟩
      | _ => cases hevent

theorem sent_prefix_after (record : Record) (event : Event) :
    record.sent <+: (record.after event).sent := by
  rcases record.after_cases event with
    ⟨-, extra, hstep⟩ | ⟨-, ⟨engine', -, hafter⟩ | ⟨-, hafter⟩⟩
  · exact ⟨extra, hstep.sent_eq.symm⟩
  · rw [hafter, sent_moved]
  · rw [hafter]

theorem sent_prefix_afterAll (record : Record) (events : List Event) :
    record.sent <+: (record.afterAll events).sent := by
  apply afterAll_induction (P := fun later => record.sent <+: later.sent)
  · intro later event hlater
    exact hlater.trans (later.sent_prefix_after event)
  · exact List.prefix_rfl

/-- The responses that have been made are those of some blocks, one after the other. -/
structure Made (record : Record) (blocks : List (List Response)) : Prop where
  made_eq : record.made = numbered blocks
  stream_eq : record.received ++ record.engine.responses = record.made.map (·.2)
  cancelled : ∀ number state, (number, .paused .cancelled state) ∈ record.made →
    ∃ request, record.sent[number]? = some request ∧
      record.engine.isCancelled request.token = true

/-- Every command that has been taken up has been answered. -/
structure Idle (record : Record) (answers : List (List Response)) : Prop where
  made : record.Made answers
  answered : ∀ answer ∈ answers, Response.IsAnswer answer
  running_eq : record.engine.running = none
  sent_eq : ∃ done, record.sent = done ++ record.engine.queue ∧ done.length = answers.length

/-- The command that was taken up last has a run, which has made some progress. -/
structure Busy (record : Record) (answers : List (List Response)) (states : List SessionState)
    (request : Request) : Prop where
  made : record.Made (answers ++ [states.map .progress])
  answered : ∀ answer ∈ answers, Response.IsAnswer answer
  running_eq : ∃ run, record.engine.running = some (run, request.token)
  sent_eq : ∃ done,
    record.sent = done ++ request :: record.engine.queue ∧ done.length = answers.length

inductive Orderly (record : Record) : Prop
  | idle (answers : List (List Response)) : record.Idle answers → Orderly record
  | busy (answers : List (List Response)) (states : List SessionState) (request : Request) :
      record.Busy answers states request → Orderly record

variable {answers blocks : List (List Response)} {block responses : List Response}
  {states : List SessionState} {request : Request} {engine engine' : Engine}

section Host

variable {extra : List Request}

theorem Made.hostStep (hmade : record.Made blocks) (hstep : record.HostStep record' extra) :
    record'.Made blocks := by
  constructor
  · rw [hstep.made_eq, hmade.made_eq]
  · rw [hstep.stream_eq, hmade.stream_eq, hstep.made_eq]
  · intro number state hmem
    rw [hstep.made_eq] at hmem
    obtain ⟨request, hrequest, hcancelled⟩ := hmade.cancelled number state hmem
    have hlt : number < record.sent.length := (List.getElem?_eq_some_iff.mp hrequest).1
    refine ⟨request, ?_, hstep.isCancelled _ hcancelled⟩
    rw [hstep.sent_eq, List.getElem?_append_left hlt, hrequest]

theorem Idle.hostStep (hidle : record.Idle answers) (hstep : record.HostStep record' extra) :
    record'.Idle answers := by
  obtain ⟨done, hsent, hdone⟩ := hidle.sent_eq
  refine ⟨hidle.made.hostStep hstep, hidle.answered, ?_, done, ?_, hdone⟩
  · rw [hstep.running_eq, hidle.running_eq]
  · simp [hstep.sent_eq, hstep.queue_eq, hsent]

theorem Busy.hostStep (hbusy : record.Busy answers states request)
    (hstep : record.HostStep record' extra) : record'.Busy answers states request := by
  obtain ⟨done, hsent, hdone⟩ := hbusy.sent_eq
  refine ⟨hbusy.made.hostStep hstep, hbusy.answered, ?_, done, ?_, hdone⟩
  · rw [hstep.running_eq]
    exact hbusy.running_eq
  · simp [hstep.sent_eq, hstep.queue_eq, hsent]

end Host

/-- What a move makes in the service of a command goes to the end of its block. -/
theorem Made.moved (hmade : record.Made (answers ++ [block]))
    (hrequest : record.sent[answers.length]? = some request)
    (hqueue : engine'.queue.length + answers.length + 1 = record.sent.length)
    (hresponses : engine'.responses = record.engine.responses ++ responses)
    (hkept : engine'.cancelled = record.engine.cancelled)
    (hcancelled : ∀ state, .paused .cancelled state ∈ responses →
      record.engine.isCancelled request.token = true) :
    (record.moved engine').Made (answers ++ [block ++ responses]) := by
  have hnumber : record.sent.length - engine'.queue.length - 1 = answers.length := by omega
  have hmoved : (record.moved engine').made =
      record.made ++ responses.map fun response => (answers.length, response) := by
    simp [Record.moved, taken, hresponses, hnumber]
  have hsame : ∀ token, engine'.isCancelled token = record.engine.isCancelled token := by
    simp [isCancelled, hkept]
  constructor
  · rw [hmoved, hmade.made_eq, numbered_extend]
  · calc record.received ++ engine'.responses
        = (record.received ++ record.engine.responses) ++ responses := by simp [hresponses]
      _ = record.made.map (·.2) ++ responses := by rw [hmade.stream_eq]
      _ = (record.moved engine').made.map (·.2) := by simp [hmoved, Function.comp_def]
  · intro number state hmem
    rw [hmoved] at hmem
    simp only [Record.moved, hsame]
    rcases List.mem_append.mp hmem with hbefore | hnew
    · exact hmade.cancelled number state hbefore
    · obtain ⟨response, hresponse, heq⟩ := List.mem_map.mp hnew
      cases heq
      exact ⟨request, hrequest, hcancelled state hresponse⟩

/-- A move made in the service of a command answers it or leaves its run under way. -/
theorem moved_cases (hmade : record.Made (answers ++ [states.map .progress]))
    (hanswered : ∀ answer ∈ answers, Response.IsAnswer answer)
    (hsent : ∃ done, record.sent = done ++ request :: engine.queue ∧ done.length = answers.length)
    (hengine : ∃ queue, engine = { record.engine with queue })
    (hserves : engine.Serves request.token engine') :
    (∃ answer, (record.moved engine').Idle (answers ++ [answer])) ∨
      ∃ states, (record.moved engine').Busy answers states request := by
  obtain ⟨queue, rfl⟩ := hengine
  obtain ⟨done, hsent, hdone⟩ := hsent
  have hrequest : record.sent[answers.length]? = some request := by simp [hsent, ← hdone]
  have hqueue : queue.length + answers.length + 1 = record.sent.length := by
    simp [hsent, ← hdone]
    omega
  cases hserves with
  | ends session response hterminal hcancelled =>
      refine .inl ⟨states.map .progress ++ [response], ?_, ?_, rfl, done ++ [request], ?_, ?_⟩
      · apply hmade.moved hrequest
        · exact hqueue
        · rfl
        · rfl
        · intro state hmem
          exact hcancelled state (List.mem_singleton.mp hmem).symm
      · intro answer hanswer
        rcases List.mem_append.mp hanswer with hbefore | hlast
        · exact hanswered answer hbefore
        · rw [List.mem_singleton.mp hlast]
          exact ⟨states, response, rfl, hterminal⟩
      · simp [Record.moved, hsent]
      · simp [hdone]
  | goesOn session run =>
      refine .inr ⟨states, ?_, hanswered, ⟨run, rfl⟩, done, hsent, hdone⟩
      rw [← List.append_nil (states.map _)]
      apply hmade.moved hrequest
      · exact hqueue
      · simp
      · rfl
      · exact nofun
  | progresses session run state huncancelled =>
      refine .inr ⟨states ++ [state], ?_, hanswered, ⟨run, rfl⟩, done, hsent, hdone⟩
      rw [List.map_append]
      apply hmade.moved hrequest
      · exact hqueue
      · rfl
      · rfl
      · simp

theorem Idle.opened (hidle : record.Idle answers) :
    record.Made (answers ++ [([] : List SessionState).map .progress]) := by
  constructor
  · rw [hidle.made.made_eq]
    exact numbered_append_nil.symm
  · exact hidle.made.stream_eq
  · exact hidle.made.cancelled

theorem Busy.moved (hbusy : record.Busy answers states request)
    (hmove : record.engine.move? = some engine') :
    (∃ answer, (record.moved engine').Idle (answers ++ [answer])) ∨
      ∃ states, (record.moved engine').Busy answers states request := by
  obtain ⟨run, hrunning⟩ := hbusy.running_eq
  rcases move?_cases hmove with ⟨_, _, hgoes, rfl⟩ | ⟨_, _, hstopped, _⟩
  · cases hrunning.symm.trans hgoes
    exact moved_cases hbusy.made hbusy.answered hbusy.sent_eq ⟨_, rfl⟩ (takeTurn_serves _ _ _)
  · cases hrunning.symm.trans hstopped

theorem Idle.moved (hidle : record.Idle answers)
    (hmove : record.engine.move? = some engine') :
    ∃ request queue, record.engine.queue = request :: queue ∧
      ((∃ answer, (record.moved engine').Idle (answers ++ [answer])) ∨
        ∃ states, (record.moved engine').Busy answers states request) := by
  rcases move?_cases hmove with ⟨_, _, hgoes, _⟩ | ⟨request, queue, _, hqueue, rfl⟩
  · cases hidle.running_eq.symm.trans hgoes
  · refine ⟨request, queue, hqueue, ?_⟩
    have hsent := hidle.sent_eq
    rw [hqueue] at hsent
    exact moved_cases hidle.opened hidle.answered hsent ⟨queue, rfl⟩ (takeUp_serves _ request)

theorem Orderly.of_moved
    (hmoved : (∃ answer, record.Idle (answers ++ [answer])) ∨
      ∃ states, record.Busy answers states request) : record.Orderly := by
  rcases hmoved with ⟨answer, hidle⟩ | ⟨states, hbusy⟩
  · exact .idle _ hidle
  · exact .busy _ _ _ hbusy

theorem Orderly.after (horderly : record.Orderly) (event : Event) :
    (record.after event).Orderly := by
  rcases record.after_cases event with
    ⟨-, extra, hstep⟩ | ⟨-, ⟨engine', hmove, hafter⟩ | ⟨-, hafter⟩⟩
  · cases horderly with
    | idle answers hidle => exact .idle answers (hidle.hostStep hstep)
    | busy answers states request hbusy =>
        exact .busy answers states request (hbusy.hostStep hstep)
  · rw [hafter]
    cases horderly with
    | idle answers hidle =>
        obtain ⟨_, _, _, hmoved⟩ := hidle.moved hmove
        exact .of_moved hmoved
    | busy answers states request hbusy => exact .of_moved (hbusy.moved hmove)
  · rw [hafter]
    exact horderly

theorem start_orderly (session : Session) : (start session).Orderly := by
  apply Orderly.idle []
  constructor
  · exact ⟨rfl, rfl, nofun⟩
  · exact nofun
  · rfl
  · exact ⟨[], rfl, rfl⟩

theorem Orderly.afterAll (horderly : record.Orderly) (events : List Event) :
    (record.afterAll events).Orderly := by
  apply afterAll_induction
  · intro record event horderly
    exact horderly.after event
  · exact horderly

theorem Orderly.cancelled (horderly : record.Orderly) (number : Nat) (state : SessionState)
    (hmem : (number, .paused .cancelled state) ∈ record.made) :
    ∃ request, record.sent[number]? = some request ∧
      record.engine.isCancelled request.token = true := by
  cases horderly with
  | idle answers hidle => exact hidle.made.cancelled number state hmem
  | busy answers states request hbusy => exact hbusy.made.cancelled number state hmem

end Record
end Engine
end WordMachine
