/-
Module: Whitespace.Proofs.InputDelivery
Purpose: How input is delivered does not matter. The commands that do not count calls come to the same
  ending over a text that is known from the start, over batches of it, and over a feed into which it is fed
  piece by piece while runs wait, whether a run that waits goes on or is given up and started anew. Text
  that is sent to a run which is given up before it looks is lost, and then the ending may be another one.
Main exports: endsWith_carry_iff, endsWith_carry_all_iff, ends_alike_however_delivered,
  not_ends_alike_given_up_unread
-/
import Whitespace.Proofs.Renewal

namespace Whitespace.Session

/-! ### Ways to deliver a text -/

section

variable {closed : Bool} {s s' : Session} {services : List Service} {commands : List Command} {e : Ending}
  {program : Program} {state : Machine.State} {batches pieces : List String} {text : String}

/-- Commands that do not count calls come to the same ending in a session that is behind. -/
theorem endsWith_carry_iff (plain : ∀ c ∈ commands, c.countsCalls = false)
    (behind : s.Behind closed (services.flatMap Service.kept) s') :
    EndsWith (fun turns => carry turns commands [] s) e ↔
      EndsWith (fun turns => carry turns commands services s') e := by
  induction commands generalizing s s' services with
  | nil => exact endsWith_carry_nil behind
  | cons c rest ih =>
      have renews := renews_of_not_countsCalls services (plain c List.mem_cons_self) s'
      apply endsWith_carry_cons behind renews
      intro t t' left behind'
      apply ih _ behind'
      intro c' member
      exact plain c' (List.mem_cons_of_mem c member)

/-- As long as no run is given up after text has been fed to it, all that is fed counts. -/
theorem endsWith_carry_all_iff (plain : ∀ c ∈ commands, c.countsCalls = false)
    (silent : ∀ v ∈ services, v.givesUp = true → ∀ a ∈ v.actions, a.text = [])
    (behind : s.Behind closed (services.flatMap Service.all) s') :
    EndsWith (fun turns => carry turns commands [] s) e ↔
      EndsWith (fun turns => carry turns commands services s') e := by
  have same : services.flatMap Service.kept = services.flatMap Service.all := by
    apply List.flatMap_congr
    intro v member
    exact Service.kept_eq_all (silent v member)
  rw [← same] at behind
  exact endsWith_carry_iff plain behind

/-- A session over batches is not behind one over their text. -/
theorem behind_ofBatches (nonempty : "" ∉ batches) (joined : String.join batches = text) :
    (start program (.ofText text) state).Behind true [] (start program (.ofBatches batches) state) := by
  refine ⟨rfl, rfl, true, [], ⟨rfl, rfl, ?_⟩, .done rfl⟩
  refine ⟨Input.Source.steady_ofText text, Input.Source.steady_ofBatches nonempty, ?_, fun _ => ⟨rfl, rfl⟩⟩
  change text.toList = batches.flatMap String.toList ++ []
  rw [← joined, String.toList_join, List.append_nil]

/-- A session that is fed from outside is behind by its pieces and the close. -/
theorem behind_fresh (joined : String.join pieces = text) :
    (start program (.ofText text) state).Behind true (pieces.map .feed ++ [.close])
      (start program .fresh state) := by
  refine ⟨rfl, rfl, false, pieces.flatMap String.toList, ⟨rfl, rfl, ?_⟩, Input.delivers_close pieces⟩
  refine ⟨Input.Source.steady_ofText text, Input.Source.steady_fresh, ?_, nofun⟩
  change text.toList = [] ++ pieces.flatMap String.toList
  rw [← joined, String.toList_join, List.nil_append]

/-- Single steps, runs to the end and runs to a pause, one after another, come to the same ending over a
    text, over batches of it none of which is empty, and over a feed into which its pieces are fed, and
    which is closed after them, while runs wait. A run that waits goes on, or it is given up, before it is
    fed or after it, and its command is started anew. The pieces are all that is fed, except for the text
    that is sent to a read of a run which is then given up without looking at it. -/
theorem ends_alike_however_delivered (program : Program) (state : Machine.State) (text : String)
    (batched : String.join batches = text) (nonempty : "" ∉ batches) (cut : String.join pieces = text)
    (fed : services.flatMap Service.kept = pieces.map .feed ++ [.close])
    (plain : ∀ c ∈ commands, c.countsCalls = false) (e : Ending) :
    (EndsWith (fun turns => carry turns commands [] (start program (.ofText text) state)) e ↔
      EndsWith (fun turns => carry turns commands [] (start program (.ofBatches batches) state)) e) ∧
    (EndsWith (fun turns => carry turns commands [] (start program (.ofText text) state)) e ↔
      EndsWith (fun turns => carry turns commands services (start program .fresh state)) e) := by
  constructor
  · exact endsWith_carry_iff plain (behind_ofBatches nonempty batched)
  · apply endsWith_carry_iff plain
    rw [fed]
    exact behind_fresh cut

end

/-- A program that reads a number, writes it, and reads a character. -/
def echo : Program :=
  .ofInstructions
    [.stack (.push 1), .io .readNumber, .stack (.push 1), .heap .retrieve, .io .writeNumber,
      .stack (.push 2), .io .readCharacter, .flow .exit]

/-- Feeds one piece after another into runs that wait, giving up every other one. The first run is given up
    only after it has been sent a piece of text, and the piece is fed again. -/
def echoServices : List Service :=
  [⟨[.feed "1"], true, [.feed "1"]⟩, ⟨[.feed "2"], false, []⟩, ⟨[], true, [.feed " "]⟩,
    ⟨[.feed "x", .close], false, []⟩]

/-- The number and the character arrive in pieces, and the number is written in full. -/
theorem ends_alike_however_delivered_echo :
    let commands := [Command.step, .runUntilPause]
    ∃ e : Ending, e.failure? = none ∧ e.output.text = "12" ∧
      EndsWith (fun turns => carry turns commands [] (start echo (.ofBatches ["1", "2 x"]) {})) e ∧
      EndsWith (fun turns => carry turns commands echoServices (start echo .fresh {})) e := by
  intro commands
  have ended : (ending? (carry 9 commands [] (start echo (.ofText "12 x") {}))).isSome = true := by
    decide +kernel
  have output : (ending? (carry 9 commands [] (start echo (.ofText "12 x") {}))).map
      (fun e => (e.failure?, e.output.text)) = some (none, "12") := by
    decide +kernel
  obtain ⟨e, ending⟩ := Option.isSome_iff_exists.1 ended
  rw [ending] at output
  obtain ⟨failure, text⟩ := Prod.mk.inj (Option.some.inj output)
  have whole : EndsWith (fun turns => carry turns commands [] (start echo (.ofText "12 x") {})) e :=
    ⟨9, ending⟩
  have batched : String.join ["1", "2 x"] = "12 x" := by decide
  have cut : String.join ["1", "2", " ", "x"] = "12 x" := by decide
  have fed : echoServices.flatMap Service.kept = ["1", "2", " ", "x"].map .feed ++ [.close] := by decide
  have plain : ∀ c ∈ commands, c.countsCalls = false := by decide
  obtain ⟨batches, feed⟩ :=
    ends_alike_however_delivered echo {} "12 x" batched (by decide) cut fed plain e
  exact ⟨e, failure, text, batches.1 whole, feed.1 whole⟩

def taking : Program := .ofInstructions [.stack (.push 0), .io .readCharacter, .flow .exit]

/-- Feeds a character to the read of a run, gives the run up before it looks, and closes the input when the
    run that is started anew waits. -/
def hastyServices : List Service := [⟨[.feed "a"], true, []⟩, ⟨[.close], false, []⟩]

/-- The character is lost with the run that is given up: the run that is started anew meets the end of the
    input, where a run over the text completes. -/
theorem not_ends_alike_given_up_unread :
    hastyServices.flatMap Service.all = ["a"].map .feed ++ [.close] ∧
      ∃ e : Ending, e.failure? = some ⟨1, some (.io .readCharacter), .input .exhausted⟩ ∧
        EndsWith (fun turns => carry turns [.run] hastyServices (start taking .fresh {})) e ∧
        ¬ EndsWith (fun turns => carry turns [.run] [] (start taking (.ofText "a") {})) e := by
  have outcome : (ending? (carry 9 [.run] hastyServices (start taking .fresh {}))).map (·.failure?) =
      some (some ⟨1, some (.io .readCharacter), .input .exhausted⟩) := by
    decide +kernel
  have outcome' : (ending? (carry 9 [.run] [] (start taking (.ofText "a") {}))).map (·.failure?) =
      some none := by
    decide +kernel
  obtain ⟨e, ending, failure⟩ := Option.map_eq_some_iff.1 outcome
  obtain ⟨e', ending', success⟩ := Option.map_eq_some_iff.1 outcome'
  refine ⟨rfl, e, failure, ⟨9, ending⟩, ?_⟩
  intro whole
  have unique : e' = e := EndsWith.unique ⟨9, ending'⟩ whole
  rw [unique, failure] at success
  cases success

end Whitespace.Session
