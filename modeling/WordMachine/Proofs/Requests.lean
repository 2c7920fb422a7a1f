import WordMachine.Proofs.CommandAnswers

/-!
# Requests

A request sends a command and takes responses up to the next terminal one.  It
does not look whose response that is.  Responses come in the order of sending,
so a request is answered for the oldest command whose terminal response has not
been received: its own command exactly if nothing else was outstanding.
-/

namespace WordMachine
namespace Engine

/-! ## The first terminal response -/

section Answers

variable {answers : List (List Response)} {response : Response} {seen : List SessionState}

theorem split_at_terminal {states states' : List SessionState} {last last' : Response}
    {rest rest' : List Response} (hlast : last.isTerminal = true)
    (hlast' : last'.isTerminal = true)
    (hsame : states.map Response.progress ++ last :: rest =
      states'.map Response.progress ++ last' :: rest') :
    states = states' ∧ last = last' ∧ rest = rest' := by
  induction states generalizing states' with
  | nil =>
      cases states' with
      | nil => simpa using hsame
      | cons state' states' =>
          cases hsame
          cases hlast
  | cons state states ih =>
      cases states' with
      | nil =>
          cases hsame
          cases hlast'
      | cons state' states' =>
          simp only [List.map_cons, List.cons_append, List.cons.injEq, Response.progress.injEq]
            at hsame
          obtain ⟨rfl, hrest⟩ := ih hsame.2
          exact ⟨by rw [hsame.1], hrest⟩

theorem countP_progress (states : List SessionState) :
    (states.map Response.progress).countP Response.isTerminal = 0 := by
  simp [List.countP_eq_zero, Response.isTerminal]

/-- After some responses, the next terminal one is the end of the answer in which they end. -/
theorem answer_of_terminal (hanswers : ∀ answer ∈ answers, Response.IsAnswer answer)
    {states : List SessionState} {taken later : List Response}
    (hstream : answers.flatten ++ states.map .progress =
      taken ++ (seen.map .progress ++ response :: later))
    (hterminal : response.isTerminal = true) :
    ∃ earlier : List SessionState,
      taken = (answers.take (taken.countP Response.isTerminal)).flatten ++
          earlier.map .progress ∧
        answers[taken.countP Response.isTerminal]? =
          some (earlier.map .progress ++ seen.map .progress ++ [response]) := by
  induction answers generalizing taken with
  | nil =>
      have hmem : response ∈ states.map Response.progress := by
        rw [List.flatten_nil, List.nil_append] at hstream
        simp [hstream]
      obtain ⟨state, -, rfl⟩ := List.mem_map.mp hmem
      cases hterminal
  | cons answer answers ih =>
      obtain ⟨progress, last, rfl, hlast⟩ := hanswers answer List.mem_cons_self
      rw [List.flatten_cons, List.append_assoc, List.append_assoc, List.singleton_append,
        List.append_eq_append_iff] at hstream
      rcases hstream with ⟨beyond, rfl, hrest⟩ | ⟨ahead, hprogress, hrest⟩
      · cases beyond with
        | nil =>
            have hfirst : ([] : List SessionState).map Response.progress ++
                last :: (answers.flatten ++ states.map .progress) =
                  seen.map .progress ++ response :: later := hrest
            obtain ⟨rfl, rfl, -⟩ := split_at_terminal hlast hterminal hfirst
            refine ⟨progress, ?_, ?_⟩
            · rw [List.append_nil, countP_progress]
              rfl
            · rw [List.append_nil, countP_progress]
              simp
        | cons first beyond =>
            obtain ⟨rfl, hlater⟩ := List.cons.inj hrest
            have hothers : ∀ answer ∈ answers, Response.IsAnswer answer := by
              intro answer hmem
              exact hanswers answer (List.mem_cons_of_mem _ hmem)
            obtain ⟨earlier, htaken, hanswer⟩ := ih hothers hlater
            have hcount : (progress.map Response.progress ++ last :: beyond).countP
                Response.isTerminal = beyond.countP Response.isTerminal + 1 := by
              rw [List.countP_append, countP_progress, List.countP_cons_of_pos hlast,
                Nat.zero_add]
            refine ⟨earlier, ?_, ?_⟩
            · rw [hcount, List.take_succ_cons, List.flatten_cons, List.append_assoc _ _ _,
                List.append_assoc _ _ _, ← htaken]
              rfl
            · rw [hcount, List.getElem?_cons_succ, hanswer]
      · obtain ⟨earlier, between, rfl, rfl, rfl⟩ := List.map_eq_append_iff.mp hprogress
        obtain ⟨rfl, rfl, -⟩ := split_at_terminal hterminal hlast hrest
        refine ⟨earlier, ?_, ?_⟩
        · rw [countP_progress]
          rfl
        · rw [countP_progress]
          simp

theorem countP_answers (hanswers : ∀ answer ∈ answers, Response.IsAnswer answer) :
    answers.flatten.countP Response.isTerminal = answers.length := by
  induction answers with
  | nil => rfl
  | cons answer answers ih =>
      obtain ⟨progress, last, rfl, hlast⟩ := hanswers answer List.mem_cons_self
      have hothers := ih fun answer hmem => hanswers answer (List.mem_cons_of_mem _ hmem)
      rw [List.flatten_cons, List.countP_append, List.countP_append, countP_progress, hothers,
        List.countP_singleton, if_pos hlast, List.length_cons]
      omega

/-- What is left of some answers ends with a terminal response, if anything is left. -/
theorem eq_nil_of_answers (hanswers : ∀ answer ∈ answers, Response.IsAnswer answer)
    {taken left : List Response} (hstream : answers.flatten = taken ++ left)
    (hleft : left.countP Response.isTerminal = 0) : left = [] := by
  rcases List.eq_nil_or_concat left with rfl | ⟨left, last, rfl⟩
  · rfl
  · exfalso
    have hlast : ¬ last.isTerminal = true := List.countP_eq_zero.mp hleft last (by simp)
    rcases List.eq_nil_or_concat answers with rfl | ⟨answers, answer, rfl⟩
    · simp at hstream
    · obtain ⟨progress, final, rfl, hfinal⟩ := hanswers answer (by simp)
      rw [List.concat_eq_append, List.concat_eq_append, List.flatten_append,
        List.flatten_singleton, ← List.append_assoc, ← List.append_assoc] at hstream
      obtain ⟨-, hsame⟩ := List.append_inj' hstream rfl
      cases hsame
      exact hlast hfinal

end Answers
namespace Record

variable {record : Record} {engine' : Engine} {response : Response} {seen : List SessionState}

/-! ## Whose response it is -/

/-- A terminal response that is received ends the answer to the command whose number is that of
the terminal responses received before. -/
theorem Orderly.answer_of_received {taken : List Response} (horderly : record.Orderly)
    (hterminal : response.isTerminal = true)
    (hreceived : record.received = taken ++ seen.map .progress ++ [response]) :
    ∃ earlier : List SessionState,
      taken = (List.range (taken.countP Response.isTerminal)).flatMap record.answersTo ++
          earlier.map .progress ∧
        record.answersTo (taken.countP Response.isTerminal) =
          earlier.map .progress ++ seen.map .progress ++ [response] := by
  obtain ⟨answers, states, hmade, hanswers, -⟩ := horderly.blocks
  have hstream : answers.flatten ++ states.map .progress =
      taken ++ (seen.map .progress ++ response :: record.engine.responses) := by
    have hwhole := hmade.stream_eq
    rw [hmade.made_eq, map_snd_numbered, hreceived] at hwhole
    simpa using hwhole.symm
  obtain ⟨earlier, htaken, hanswer⟩ := answer_of_terminal hanswers hstream hterminal
  have hlt : taken.countP Response.isTerminal < answers.length :=
    (List.getElem?_eq_some_iff.mp hanswer).1
  have hanswersTo : record.answersTo =
      fun number => (answers ++ [states.map Response.progress])[number]?.getD [] :=
    funext hmade.answersTo_eq
  refine ⟨earlier, ?_, ?_⟩
  · rw [hanswersTo, flatMap_range_getElem?, List.take_append_of_le_length hlt.le]
    exact htaken
  · rw [hmade.answersTo_eq, List.getElem?_append_left hlt, hanswer]
    rfl

/-! ## What is outstanding -/

theorem Orderly.countP_stream (horderly : record.Orderly) :
    record.received.countP Response.isTerminal +
      record.engine.responses.countP Response.isTerminal = record.answered := by
  obtain ⟨answers, states, hmade, hanswers, hcount⟩ := horderly.blocks
  rw [hcount, ← List.countP_append, hmade.stream_eq, hmade.made_eq, map_snd_numbered,
    List.flatten_append, List.flatten_singleton, List.countP_append, countP_answers hanswers,
    countP_progress, Nat.add_zero]

theorem Orderly.countP_received_le (horderly : record.Orderly) :
    record.received.countP Response.isTerminal ≤ record.sent.length := by
  have hcount := horderly.countP_stream
  rw [answered, taken] at hcount
  omega

/-- When nothing is left to do or to receive, the answers to all commands have been received. -/
theorem Orderly.all_received (horderly : record.Orderly) (hrunning : record.engine.running = none)
    (hqueue : record.engine.queue = []) (hresponses : record.engine.responses = []) :
    record.received.countP Response.isTerminal = record.sent.length := by
  have hcount := horderly.countP_stream
  simpa [answered, taken, hrunning, hqueue, hresponses] using hcount

theorem Orderly.rest_of_all_received (horderly : record.Orderly)
    (hall : record.received.countP Response.isTerminal = record.sent.length) :
    record.engine.running = none ∧ record.engine.queue = [] ∧ record.engine.responses = [] ∧
      ∃ answers : List (List Response),
        record.received = answers.flatten ∧ ∀ answer ∈ answers, Response.IsAnswer answer := by
  cases horderly with
  | idle answers hidle =>
      have hcount := (Orderly.idle answers hidle).countP_stream
      rw [hidle.answered_eq] at hcount
      obtain ⟨done, hsent, hdone⟩ := hidle.sent_eq
      have hlength : record.sent.length = answers.length + record.engine.queue.length := by
        rw [hsent, List.length_append, hdone]
      have hstream : answers.flatten = record.received ++ record.engine.responses := by
        rw [hidle.made.stream_eq, hidle.made.made_eq, map_snd_numbered]
      have hresponses : record.engine.responses = [] := by
        apply eq_nil_of_answers hidle.answered hstream
        omega
      refine ⟨hidle.running_eq, ?_, hresponses, answers, ?_, hidle.answered⟩
      · apply List.eq_nil_of_length_eq_zero
        omega
      · rw [hstream, hresponses, List.append_nil]
  | busy answers states request hbusy =>
      exfalso
      have hcount := (Orderly.busy answers states request hbusy).countP_stream
      rw [hbusy.answered_eq] at hcount
      obtain ⟨done, hsent, hdone⟩ := hbusy.sent_eq
      rw [hsent, List.length_append, List.length_cons] at hall
      omega

/-! ## Waiting as events -/

/-- The events by which a host that waits lets the engine work. -/
def Waits (events : List Event) : Prop := ∀ event ∈ events, event = .move ∨ event = .receive

theorem Waits.append {events later : List Event} (hevents : Waits events) (hlater : Waits later) :
    Waits (events ++ later) := by
  intro event hmem
  rcases List.mem_append.mp hmem with hbefore | hafter
  · exact hevents event hbefore
  · exact hlater event hafter

theorem receive?_cases (record : Record) :
    (∃ response engine' later,
      record.engine.receive? = some (response, engine') ∧ Waits later ∧
        (record.afterAll later).engine = engine' ∧
          (record.afterAll later).received = record.received ++ [response]) ∨
      record.engine.receive? = none ∧
        ∃ later, Waits later ∧ (record.afterAll later).engine.move? = none ∧
          (record.afterAll later).engine.responses = [] ∧
            (record.afterAll later).received = record.received := by
  generalize hengine : record.engine = engine
  fun_induction receive? engine generalizing record with
  | case1 engine received htake =>
      subst hengine
      refine .inl ⟨received.1, received.2, [.receive], rfl, by simp [Waits], ?_, ?_⟩
      all_goals simp [after, htake]
  | case2 engine htake hmove =>
      subst hengine
      refine .inr ⟨rfl, [], by simp [Waits], hmove, ?_, rfl⟩
      unfold take? at htake
      split at htake
      next hresponses => exact hresponses
      · cases htake
  | case3 engine htake next hmove ih =>
      subst hengine
      have hmoved : record.after .move = record.moved next := by simp [after, hmove]
      rcases ih (record.moved next) rfl with
        ⟨response, engine', later, hreceive, hwaits, hengine, hreceived⟩ |
        ⟨hreceive, later, hwaits, hrest⟩
      · refine .inl ⟨response, engine', .move :: later, hreceive, ?_, ?_, ?_⟩
        · simpa [Waits] using hwaits
        · rw [afterAll_cons, hmoved, hengine]
        · rw [afterAll_cons, hmoved, hreceived]
          rfl
      · refine .inr ⟨hreceive, .move :: later, ?_, ?_⟩
        · simpa [Waits] using hwaits
        · rw [afterAll_cons, hmoved]
          exact hrest

/-- As long as a terminal response is due, waiting for one comes to an end. -/
theorem Orderly.receiveTerminal?_eq (horderly : record.Orderly) (progress : List SessionState)
    (hdue : record.received.countP Response.isTerminal < record.sent.length) :
    ∃ response seen engine' later,
      record.engine.receiveTerminal? progress = some (response, progress.reverse ++ seen, engine') ∧
        response.isTerminal = true ∧ Waits later ∧
          (record.afterAll later).engine = engine' ∧
            (record.afterAll later).received =
              record.received ++ seen.map .progress ++ [response] := by
  generalize hengine : record.engine = engine
  fun_induction receiveTerminal? engine progress generalizing record with
  | case1 engine progress hreceive =>
      subst hengine
      exfalso
      rcases record.receive?_cases with
        ⟨_, _, _, hsome, -⟩ | ⟨-, later, -, hrest, hresponses, hreceived⟩
      · cases hreceive.symm.trans hsome
      · obtain ⟨hrunning, hqueue⟩ := move?_eq_none hrest
        have hall := (horderly.afterAll later).all_received hrunning hqueue hresponses
        rw [hreceived] at hall
        have hsent := (record.sent_prefix_afterAll later).length_le
        omega
  | case2 engine progress state next hreceive ih =>
      subst hengine
      rcases record.receive?_cases with
        ⟨response, engine', waited, hsome, hwaited, hengine, hreceived⟩ | ⟨hnone, -⟩
      · cases hreceive.symm.trans hsome
        have hlater : ((record.afterAll waited).received).countP Response.isTerminal <
            (record.afterAll waited).sent.length := by
          rw [hreceived]
          have hsent := (record.sent_prefix_afterAll waited).length_le
          simp [Response.isTerminal]
          omega
        obtain ⟨response, seen, engine', later, heq, hterminal, hwaits, hengine', hreceived'⟩ :=
          ih (horderly.afterAll waited) hlater hengine
        refine ⟨response, state :: seen, engine', waited ++ later, ?_, hterminal, ?_, ?_, ?_⟩
        · simpa using heq
        · exact hwaited.append hwaits
        · rw [afterAll_append, hengine']
        · rw [afterAll_append, hreceived', hreceived]
          simp
      · cases hreceive.symm.trans hnone
  | case3 engine progress response next hterminal hreceive =>
      subst hengine
      have hanswer : response.isTerminal = true := by
        cases response with
        | progress state => exact absurd rfl (hterminal state)
        | _ => rfl
      rcases record.receive?_cases with
        ⟨response, engine', waited, hsome, hwaited, hengine, hreceived⟩ | ⟨hnone, -⟩
      · cases hreceive.symm.trans hsome
        refine ⟨response, [], next, waited, ?_, hanswer, hwaited, hengine, ?_⟩
        · rw [List.append_nil]
        · simpa using hreceived
      · cases hreceive.symm.trans hnone

theorem Orderly.request?_eq (horderly : record.Orderly) (command : Command) :
    ∃ response seen engine' later,
      record.engine.request? command = some (response, seen, engine') ∧
        response.isTerminal = true ∧ Waits later ∧
          (record.afterAll (.send command :: later)).engine = engine' ∧
            (record.afterAll (.send command :: later)).received =
              record.received ++ seen.map .progress ++ [response] := by
  have hdue : (record.after (.send command)).received.countP Response.isTerminal <
      (record.after (.send command)).sent.length := by
    have hlength : (record.after (.send command)).sent.length = record.sent.length + 1 :=
      List.length_append
    rw [hlength]
    exact Nat.lt_succ_of_le horderly.countP_received_le
  exact (horderly.after (.send command)).receiveTerminal?_eq [] hdue

end Record

/-- Whatever the schedule, a request takes the end of the answer to the oldest command whose
terminal response has not been received, and that is its own exactly if nothing was outstanding. -/
theorem request_takes_oldest_answer (session : Session) (events : List Event)
    (command : Command) :
    let record := (Record.start session).afterAll events
    let oldest := record.received.countP Response.isTerminal
    (∃ response seen engine' later,
      record.engine.request? command = some (response, seen, engine') ∧
        response.isTerminal = true ∧ Record.Waits later ∧
          (record.afterAll (.send command :: later)).engine = engine' ∧
            (record.afterAll (.send command :: later)).received =
              record.received ++ seen.map .progress ++ [response]) ∧
      (∀ later (seen : List SessionState) response,
        response.isTerminal = true →
          (record.afterAll (.send command :: later)).received =
              record.received ++ seen.map .progress ++ [response] →
            ∃ earlier : List SessionState,
              (record.afterAll (.send command :: later)).answersTo oldest =
                  earlier.map .progress ++ seen.map .progress ++ [response] ∧
                (oldest = record.sent.length → earlier = [])) ∧
      (oldest = record.sent.length ↔
        record.engine.running = none ∧ record.engine.queue = [] ∧
          record.engine.responses = []) := by
  intro record oldest
  have horderly : record.Orderly := (Record.start_orderly session).afterAll events
  refine ⟨horderly.request?_eq command, ?_, ?_⟩
  · intro later seen response hterminal hreceived
    obtain ⟨earlier, htaken, hanswer⟩ :=
      (horderly.afterAll (.send command :: later)).answer_of_received hterminal hreceived
    refine ⟨earlier, hanswer, ?_⟩
    intro hown
    obtain ⟨-, -, -, answers, hall, hanswers⟩ := horderly.rest_of_all_received hown
    have hnone := eq_nil_of_answers hanswers (hall.symm.trans htaken) (countP_progress earlier)
    exact List.map_eq_nil_iff.mp hnone
  · constructor
    · intro hown
      obtain ⟨hrunning, hqueue, hresponses, -⟩ := horderly.rest_of_all_received hown
      exact ⟨hrunning, hqueue, hresponses⟩
    · rintro ⟨hrunning, hqueue, hresponses⟩
      exact horderly.all_received hrunning hqueue hresponses

/-- A request that is sent behind an unanswered command takes the answer to that command. -/
theorem not_own_answer_behind_setBreakpoints :
    ¬ ∀ (session : Session) (events : List Event) (command : Command) (later : List Event)
        (response : Response),
      let record := (Record.start session).afterAll events
      Record.Waits later → response.isTerminal = true →
        (record.afterAll (.send command :: later)).received = record.received ++ [response] →
          response ∈ (record.afterAll (.send command :: later)).answersTo record.sent.length := by
  intro hown
  let record := (Record.start (.start {} .standard)).afterAll [.send (.setBreakpoints [])]
  let after := record.afterAll [.send .getDisassembly, .move, .receive, .move]
  have hreceived : after.received.map Response.outcome = ["success"] := by decide +kernel
  have hanswer : (after.answersTo 1).map Response.outcome = ["error"] := by decide +kernel
  obtain ⟨response, htaken, houtcome⟩ := List.map_eq_singleton_iff.mp hreceived
  have hterminal : response.isTerminal = true := by
    cases response with
    | progress => simp [Response.outcome] at houtcome
    | _ => rfl
  have hmem := hown _ _ .getDisassembly [.move, .receive, .move] response (by simp [Record.Waits])
    hterminal htaken
  have hlisted : "success" ∈ (after.answersTo 1).map Response.outcome :=
    List.mem_map.mpr ⟨response, hmem, houtcome⟩
  rw [hanswer] at hlisted
  simp at hlisted

end Engine
end WordMachine
