/-
Module: Whitespace.Proofs.DetourLines
Purpose: A block of lines that begins with a jump to the label at its end may stand anywhere between
  other lines, or nowhere if none of them needs it. The lines that control reaches can be lowered in both
  cases, to programs that come to the same, as long as no line outside goes to the label at the end of the
  block.
Main exports: Block, Block.Sound, Block.Apart, Block.chart, Block.relocate
-/
import Whitespace.Proofs.BlankedLines
import Whitespace.Proofs.LiveNodes

namespace Whitespace.Assembly

/-! ### Blank lines in an arrangement -/

section

variable {keep keep' : Nat → Bool} {lines rest : List Line}

/-- Which lines are blanked depends on the places of the lines alone. -/
theorem blanked_congr (same : ∀ k < lines.length, keep k = keep' k) :
    blanked keep lines = blanked keep' lines := by
  apply List.ext_getElem?
  intro k
  rw [blanked_getElem?, blanked_getElem?]
  cases here : lines[k]? with
  | none => rfl
  | some l => rw [Option.map_some, Option.map_some, same k (List.getElem?_eq_some_iff.1 here).1]

theorem length_blanked : (blanked keep lines).length = lines.length := List.length_mapIdx

variable {position : Nat} {core body : List Line} {first last : Line}

/-- Lines of a block and lines around it are made blank each at its place. -/
theorem blanked_arrange (bound : position ≤ core.length) (keep : Nat → Bool) :
    blanked keep (arrange (some position) (first :: body ++ [last]) core) =
      arrange (some position)
        ((if keep position then first else first.blank) ::
          blanked (fun i => keep ((Node.body i).place (some position) body.length)) body ++
            [if keep (position + (body.length + 1)) then last else last.blank])
        (blanked (fun i => keep ((Node.core i).place (some position) body.length)) core) := by
  have bound' {keep : Nat → Bool} : position ≤ (blanked keep core).length := by rwa [length_blanked]
  obtain ⟨inner, blank⟩ :
      ∃ inner, inner = blanked (fun i => keep ((Node.body i).place (some position) body.length)) body :=
    ⟨_, rfl⟩
  have length : inner.length = body.length := by rw [blank, length_blanked]
  rw [← blank]
  apply List.ext_getElem?
  intro k
  rw [blanked_getElem?]
  cases here : (arrange (some position) (first :: body ++ [last]) core)[k]? with
  | none =>
      rw [Option.map_none, eq_comm, List.getElem?_eq_none_iff]
      rw [List.getElem?_eq_none_iff] at here
      simp only [arrange, List.length_append, List.length_take, List.length_cons, List.length_drop,
        length_blanked, length] at here ⊢
      exact here
  | some l =>
      rcases exists_of_arrange_getElem? bound here with ⟨n, item, rfl⟩ | ⟨rfl, rfl⟩ | ⟨rfl, rfl⟩
      · cases n with
        | core i =>
            rw [← length, arrange_getElem?_core bound', length, blanked_getElem?]
            exact congrArg _ item.symm
        | body i =>
            have inside : i < body.length := (List.getElem?_eq_some_iff.1 item).1
            have item' : body[i]? = some l := item
            rw [← length, arrange_getElem?_body bound' (by omega), length, blank, blanked_getElem?, item']
      · exact (arrange_getElem?_first bound').symm
      · rw [← length]
        exact (arrange_getElem?_last bound').symm

end

/-! ### Blocks of lines -/

/-- Lines that control can pass over: a first line that jumps to the label at the last one, and a body
    between the two. -/
structure Block where
  first : Line
  body : List Line
  last : Line
  label : String

namespace Block

def lines (b : Block) : List Line := b.first :: b.body ++ [b.last]

/-- The lines of the block are what they should be. They have nothing to do with variables, none but the
    first goes to the label at the end, and control does not run out of the body. -/
structure Sound (options : Options) (b : Block) : Prop where
  bare : ∀ l ∈ b.lines, l.Bare
  readable : (readStatements options [] b.lines).error? = none
  first : Statement.ofLine options [] b.first = .ok (some (.jump .always b.label))
  last : Statement.ofLine options [] b.last = .ok (some (.label b.label))
  unmarked : ∀ l ∈ b.body, l.marksLabel ≠ some b.label
  unused : ∀ l ∈ b.body, l.refersTo ≠ some b.label
  stops : ∀ l, b.body.getLast? = some l → l.continues = false

/-- Other lines leave the labels of the block to it, and are none of its lines. -/
structure Apart (b : Block) (core : List Line) : Prop where
  labels : ∀ l ∈ core, ∀ l' ∈ b.lines, ∀ name, l'.marksLabel = some name → l.marksLabel ≠ some name
  lines : ∀ l ∈ core, l ∉ b.lines

/-- Does control reach the node, or is there no line at it behind the core? -/
def Reaches (b : Block) (core : List Line) (n : Node) : Prop :=
  LiveNode (core.map Line.conduct) (b.body.map Line.conduct) n ∨ ∃ i, n = .core i ∧ core.length ≤ i

open Classical in
/-- The lines of a core, blank but where control reaches them. -/
noncomputable def keptCore (b : Block) (core : List Line) : List Line :=
  blanked (fun i => b.Reaches core (.core i)) core

open Classical in
/-- The lines of the body, blank but where control reaches them. -/
noncomputable def keptBody (b : Block) (core : List Line) : List Line :=
  blanked (fun i => b.Reaches core (.body i)) b.body

/-- The lines of the block, blank but where control reaches them. -/
noncomputable def keptLines (b : Block) (core : List Line) (first last : Bool) : List Line :=
  (if first then b.first else b.first.blank) :: b.keptBody core ++ [if last then b.last else b.last.blank]

/-- The chart of the lines that control reaches. -/
noncomputable def chart (options : Options) (b : Block) (core : List Line) : Chart where
  core := .ofLines options [] (b.keptCore core)
  body := .ofLines options [] (b.keptBody core)
  live := b.Reaches core

section

variable {options : Options} {b : Block} {core : List Line} {n : Node} {position : Nat}

theorem Sound.conduct_first (sound : b.Sound options) : b.first.conduct = ⟨none, some b.label, false⟩ :=
  Statement.conduct_of_ofLine sound.first

theorem Sound.conduct_last (sound : b.Sound options) : b.last.conduct = ⟨some b.label, none, true⟩ :=
  Statement.conduct_of_ofLine sound.last

theorem first_mem (b : Block) : b.first ∈ b.lines := List.mem_cons_self

theorem body_subset (b : Block) : b.body ⊆ b.lines := fun _ h =>
  List.mem_append_left _ (List.mem_cons_of_mem _ h)

theorem last_mem (b : Block) : b.last ∈ b.lines := List.mem_append_right _ List.mem_cons_self

theorem Sound.map_conduct (sound : b.Sound options) (position : Nat) (core : List Line) :
    (arrange (some position) b.lines core).map Line.conduct =
      gated b.label position (core.map Line.conduct) (b.body.map Line.conduct) := by
  simp only [arrange, gated, lines, List.map_append, List.map_cons, List.map_nil, List.map_take,
    List.map_drop, sound.conduct_first, sound.conduct_last]

theorem Sound.bare_keptBody (sound : b.Sound options) (core : List Line) :
    ∀ l ∈ b.keptBody core, l.Bare :=
  bare_blanked fun l member => sound.bare l (b.body_subset member)

theorem Sound.readable_keptBody (sound : b.Sound options) (core : List Line) :
    (readStatements options [] (b.keptBody core)).error? = none := by
  have bare : ∀ l ∈ b.body, l.Bare := fun l member => sound.bare l (b.body_subset member)
  refine readable_blanked bare ((readable_iff_of_bare bare).2 fun l member => ?_)
  exact (readable_iff_of_bare sound.bare).1 sound.readable l (b.body_subset member)

/-- The item of a node in terms of the lines. -/
theorem item?_conduct (b : Block) (core : List Line) (n : Node) :
    n.item? (core.map Line.conduct) (b.body.map Line.conduct) =
      (n.item? core b.body).map Line.conduct := by
  cases n <;> exact List.getElem?_map

/-- No line of the core or of the body marks the label at the end of the block. -/
theorem Sound.item_unmarked (sound : b.Sound options) (apart : b.Apart core) (n : Node) (d : Conduct)
    (item : n.item? (core.map Line.conduct) (b.body.map Line.conduct) = some d) :
    d.marksLabel ≠ some b.label := by
  rw [item?_conduct, Option.map_eq_some_iff] at item
  obtain ⟨l, item, rfl⟩ := item
  cases n with
  | core i =>
      exact apart.labels l (List.mem_of_getElem? item) b.last b.last_mem _
        (congrArg Conduct.marksLabel sound.conduct_last)
  | body i => exact sound.unmarked l (List.mem_of_getElem? item)

theorem Sound.conduct_stops (sound : b.Sound options) (d : Conduct)
    (last : (b.body.map Line.conduct).getLast? = some d) : d.continues = false := by
  rw [List.getLast?_map, Option.map_eq_some_iff] at last
  obtain ⟨l, last, rfl⟩ := last
  exact sound.stops l last

/-- No line that control reaches goes to the label at the end of the block. -/
def Unused (b : Block) (core : List Line) : Prop :=
  ∀ n d, LiveNode (core.map Line.conduct) (b.body.map Line.conduct) n →
    n.item? (core.map Line.conduct) (b.body.map Line.conduct) = some d → d.refersTo ≠ some b.label

theorem Sound.passable (sound : b.Sound options) (apart : b.Apart core) (unused : b.Unused core)
    (bound : position ≤ core.length) :
    Passable b.label position (core.map Line.conduct) (b.body.map Line.conduct) :=
  Assembly.passable (by rwa [List.length_map]) (sound.item_unmarked apart) unused sound.conduct_stops

/-- The conduct of a line of the chart is that of its node, if control reaches the node. -/
theorem conduct_of_chart (sound : b.Sound options)
    (readable : (readStatements options [] (b.keptCore core)).error? = none) {s? : Option Statement}
    (line : (b.chart options core).line? n = some s?) :
    ∃ l, n.item? core b.body = some l ∧ (b.Reaches core n → conductOf s? = l.conduct) ∧
      (¬ b.Reaches core n → conductOf s? = ⟨none, none, true⟩) := by
  cases n with
  | core i =>
      obtain ⟨l, item, conduct⟩ := conductOf_blanked readable line
      exact ⟨l, item, fun reaches => by simpa [reaches] using conduct,
        fun reaches => by simpa [reaches] using conduct⟩
  | body i =>
      obtain ⟨l, item, conduct⟩ := conductOf_blanked (sound.readable_keptBody core) line
      exact ⟨l, item, fun reaches => by simpa [reaches] using conduct,
        fun reaches => by simpa [reaches] using conduct⟩

/-- Control does not run out of the body. -/
theorem Sound.inside_of_continues (sound : b.Sound options) {i : Nat} {l : Line}
    (item : b.body[i]? = some l) (continues : l.continues = true) : i + 1 < b.body.length := by
  have here : (b.body.map Line.conduct)[i]? = some l.conduct := by
    rw [List.getElem?_map, item, Option.map_some]
  have inside := Assembly.inside_of_continues sound.conduct_stops here continues
  rwa [List.length_map] at inside

theorem length_core_chart (options : Options) (b : Block) (core : List Line) :
    (b.chart options core).core.length = core.length := length_ofLines.trans length_blanked

theorem length_body_chart (options : Options) (b : Block) (core : List Line) :
    (b.chart options core).body.length = b.body.length := length_ofLines.trans length_blanked

theorem reaches_iff_liveNode {l : Line} (item : n.item? core b.body = some l) :
    b.Reaches core n ↔ LiveNode (core.map Line.conduct) (b.body.map Line.conduct) n := by
  refine ⟨fun reaches => ?_, .inl⟩
  rcases reaches with live | ⟨i, rfl, past⟩
  · exact live
  · have inside : i < core.length := (List.getElem?_eq_some_iff.1 item).1
    omega

/-- The labels of the chart are labels of the lines. -/
theorem exists_of_chart_label (sound : b.Sound options)
    (readable : (readStatements options [] (b.keptCore core)).error? = none) {name : String}
    (line : (b.chart options core).line? n = some (some (.label name))) :
    b.Reaches core n ∧ ∃ l, n.item? core b.body = some l ∧ l.marksLabel = some name := by
  obtain ⟨l, item, live, dead⟩ := conduct_of_chart sound readable line
  have reaches : b.Reaches core n := by
    by_contra unreached
    cases congrArg Conduct.marksLabel (dead unreached)
  exact ⟨reaches, l, item, (congrArg Conduct.marksLabel (live reaches)).symm⟩

/-- No line of the chart defines the label at the end of the block. -/
theorem Sound.chart_unmarked (sound : b.Sound options) (apart : b.Apart core)
    (readable : (readStatements options [] (b.keptCore core)).error? = none) (n : Node) :
    (b.chart options core).line? n ≠ some (some (.label b.label)) := by
  intro line
  obtain ⟨-, l, item, marks⟩ := exists_of_chart_label sound readable line
  refine sound.item_unmarked apart n l.conduct ?_ marks
  rw [item?_conduct, item, Option.map_some]

/-- The chart makes sense when every label that it uses is one of its own. -/
theorem Sound.chart (sound : b.Sound options) (apart : b.Apart core)
    (readable : (readStatements options [] (b.keptCore core)).error? = none)
    (closed : (b.chart options core).Closed) : (b.chart options core).Sound b.label where
  first := by
    cases core with
    | nil => exact .inr ⟨0, rfl, Nat.le_refl 0⟩
    | cons l rest => exact .inl (.first rfl)
  following := by
    intro n s? live line continues
    obtain ⟨l, item, conduct, -⟩ := conduct_of_chart sound readable line
    rw [conduct live] at continues
    have node := (reaches_iff_liveNode item).1 live
    have here : n.item? (core.map Line.conduct) (b.body.map Line.conduct) = some l.conduct := by
      rw [item?_conduct, item, Option.map_some]
    cases next : n.next.item? core b.body with
    | some l' =>
        refine .inl (.following (d := l'.conduct) node here continues ?_)
        rw [item?_conduct, next, Option.map_some]
    | none =>
        cases n with
        | core i => exact .inr ⟨i + 1, rfl, List.getElem?_eq_none_iff.1 next⟩
        | body i =>
            have past : b.body.length ≤ i + 1 := List.getElem?_eq_none_iff.1 next
            exact absurd (sound.inside_of_continues item continues) (Nat.not_lt.2 past)
  defined line := (exists_of_chart_label sound readable line).1
  closed := closed
  separate := by
    intro name core_label body_label
    obtain ⟨i, here⟩ := List.mem_iff_getElem?.1 core_label
    obtain ⟨j, there⟩ := List.mem_iff_getElem?.1 body_label
    obtain ⟨-, l, item, marks⟩ := exists_of_chart_label (n := .core i) sound readable here
    obtain ⟨-, l', item', marks'⟩ := exists_of_chart_label (n := .body j) sound readable there
    exact apart.labels l (List.mem_of_getElem? item) l' (b.body_subset (List.mem_of_getElem? item')) name
      marks' marks
  unmarked := by
    constructor
    · intro label
      obtain ⟨i, here⟩ := List.mem_iff_getElem?.1 label
      exact sound.chart_unmarked apart readable (.core i) here
    · intro label
      obtain ⟨i, here⟩ := List.mem_iff_getElem?.1 label
      exact sound.chart_unmarked apart readable (.body i) here
  stops := by
    intro i s? live line continues
    obtain ⟨l, item, conduct, -⟩ := conduct_of_chart (n := .body i) sound readable line
    rw [conduct live] at continues
    rw [length_body_chart]
    exact sound.inside_of_continues item continues
  wellFormed := by
    intro n s line
    cases n with
    | core i => exact LineProgram.wellFormed_ofLines _ _ _ i s line
    | body i => exact LineProgram.wellFormed_ofLines _ _ _ i s line

/-- Control comes to the block in the chart only if it comes to it. -/
theorem entersNode_of_enters (sound : b.Sound options)
    (readable : (readStatements options [] (b.keptCore core)).error? = none)
    (enters : (b.chart options core).Enters position) :
    EntersNode (core.map Line.conduct) (b.body.map Line.conduct) position := by
  rcases enters with start | ⟨i, s?, rfl, live, line, continues⟩
  · exact .inl start
  · obtain ⟨l, item, conduct, -⟩ := conduct_of_chart (n := .core i) sound readable line
    rw [conduct live] at continues
    have here := item?_conduct b core (.core i)
    rw [item, Option.map_some] at here
    exact .inr ⟨i, l.conduct, rfl, (reaches_iff_liveNode (n := .core i) item).1 live, here, continues⟩

/-- The lines that are kept, with the block at a position, are those of the nodes that control reaches. -/
theorem keptPlaces_node (sound : b.Sound options) (apart : b.Apart core) (unused : b.Unused core)
    (bound : position ≤ core.length) {l : Line} (item : n.item? core b.body = some l) :
    keptPlaces (arrange (some position) b.lines core) (n.place (some position) b.body.length) = true ↔
      b.Reaches core n := by
  have here : (arrange (some position) b.lines core)[n.place (some position) b.body.length]? = some l :=
    arrange_getElem?_node bound item
  have reached := (sound.passable apart unused bound).node
    ((item?_conduct b core n).trans (congrArg _ item))
  rw [← sound.map_conduct, List.length_map] at reached
  rw [keptPlaces_iff_live here, reached, reaches_iff_liveNode item]

/-- The ends of a block are kept exactly if control enters at the position where the block stands. -/
theorem keptPlaces_ends (sound : b.Sound options) (apart : b.Apart core) (unused : b.Unused core)
    (bound : position ≤ core.length) :
    (keptPlaces (arrange (some position) b.lines core) position = true ↔
      EntersNode (core.map Line.conduct) (b.body.map Line.conduct) position) ∧
    (keptPlaces (arrange (some position) b.lines core) (position + (b.body.length + 1)) = true ↔
      EntersNode (core.map Line.conduct) (b.body.map Line.conduct) position) := by
  have passable := sound.passable apart unused bound
  have last := passable.last
  rw [← sound.map_conduct, List.length_map] at last
  have here : (arrange (some position) b.lines core)[position]? = some b.first :=
    arrange_getElem?_first bound
  have there : (arrange (some position) b.lines core)[position + (b.body.length + 1)]? = some b.last :=
    arrange_getElem?_last bound
  rw [keptPlaces_iff_live here, keptPlaces_iff_live there]
  refine ⟨?_, last⟩
  rw [sound.map_conduct]
  exact passable.first

/-- The lines that are kept of a block have nothing to do with variables. -/
theorem Sound.bare_keptLines (sound : b.Sound options) (core : List Line) (first last : Bool) :
    ∀ l ∈ b.keptLines core first last, l.Bare := by
  have kept {l : Line} (member : l ∈ b.lines) (keep : Bool) : (if keep then l else l.blank).Bare := by
    cases keep with
    | true => exact sound.bare l member
    | false => exact l.bare_blank
  rw [keptLines, List.forall_mem_append, List.forall_mem_cons, List.forall_mem_singleton]
  exact ⟨⟨kept b.first_mem first, sound.bare_keptBody core⟩, kept b.last_mem last⟩

/-- The lines that are kept of a block can be read. -/
theorem Sound.readable_keptLines (sound : b.Sound options) (core : List Line) (first last : Bool) :
    (readStatements options [] (b.keptLines core first last)).error? = none := by
  have kept {l : Line} {s : Statement} (read : Statement.ofLine options [] l = .ok (some s)) (keep : Bool) :
      ∃ s?, Statement.ofLine options [] (if keep then l else l.blank) = .ok s? := by
    cases keep with
    | true => exact ⟨_, read⟩
    | false => exact ⟨none, Line.ofLine_blank⟩
  rw [readable_iff_of_bare (sound.bare_keptLines core first last), keptLines, List.forall_mem_append,
    List.forall_mem_cons, List.forall_mem_singleton]
  exact ⟨⟨kept sound.first first, (readable_iff_of_bare (sound.bare_keptBody core)).1
    (sound.readable_keptBody core)⟩, kept sound.last last⟩

/-- What is left of the block is the program of its ends and of its body. -/
theorem Sound.ofLines_keptLines (sound : b.Sound options) (core : List Line) (first last : Bool) :
    LineProgram.ofLines options [] (b.keptLines core first last) =
      (if first then some (.jump .always b.label) else none) ::
        (b.chart options core).body ++ [if last then some (.label b.label) else none] := by
  have jump : Statement.ofLine options [] (if first then b.first else b.first.blank) =
      .ok (if first then some (.jump .always b.label) else none) := by
    cases first with
    | true => exact sound.first
    | false => rfl
  have label : Statement.ofLine options [] (if last then b.last else b.last.blank) =
      .ok (if last then some (.label b.label) else none) := by
    cases last with
    | true => exact sound.last
    | false => rfl
  have still : Variables.after [] (if first then some (.jump .always b.label) else none) = [] := by
    cases first <;> rfl
  rw [keptLines, List.cons_append, LineProgram.ofLines_cons jump, still, ofLines_append,
    (ofLines_of_bare (sound.bare_keptBody core) [] []).2, LineProgram.ofLines_cons label]
  rfl

/-- The lines left of all, with the block at a position, are those left of the core and of the block. -/
theorem blanked_around (sound : b.Sound options) (apart : b.Apart core) (unused : b.Unused core)
    (bound : position ≤ core.length) :
    let lines := arrange (some position) b.lines core
    blanked (keptPlaces lines) lines = arrange (some position)
      (b.keptLines core (keptPlaces lines position) (keptPlaces lines (position + (b.body.length + 1))))
      (b.keptCore core) := by
  classical
  intro lines
  have node {n : Node} {l : Line} := @keptPlaces_node _ b core n _ sound apart unused bound l
  have core_kept : blanked (fun i => keptPlaces lines ((Node.core i).place (some position) b.body.length))
      core = b.keptCore core := by
    apply blanked_congr
    intro i inside
    rw [Bool.eq_iff_iff, node (n := .core i) (List.getElem?_eq_getElem inside), decide_eq_true_iff]
  have body_kept : blanked (fun i => keptPlaces lines ((Node.body i).place (some position) b.body.length))
      b.body = b.keptBody core := by
    apply blanked_congr
    intro i inside
    rw [Bool.eq_iff_iff, node (n := .body i) (List.getElem?_eq_getElem inside), decide_eq_true_iff]
  have whole := @blanked_arrange position core b.body b.first b.last bound (keptPlaces lines)
  rwa [core_kept, body_kept] at whole

/-- What is left of the lines, with the block at a position, is the program of the chart. -/
theorem exists_around (sound : b.Sound options) (apart : b.Apart core) (unused : b.Unused core)
    (readable : (readStatements options [] (b.keptCore core)).error? = none)
    (bound : position ≤ core.length) :
    ∃ first last, (b.chart options core).Gates b.label position first last ∧
      LineProgram.ofLines options []
          (blanked (keptPlaces (arrange (some position) b.lines core)) (arrange (some position) b.lines core)) =
        (b.chart options core).around position first last := by
  obtain ⟨first, last⟩ := keptPlaces_ends sound apart unused bound
  refine ⟨if keptPlaces (arrange (some position) b.lines core) position then
      some (.jump .always b.label) else none,
    if keptPlaces (arrange (some position) b.lines core) (position + (b.body.length + 1)) then
      some (.label b.label) else none, ?_, ?_⟩
  · by_cases enters : EntersNode (core.map Line.conduct) (b.body.map Line.conduct) position
    · rw [if_pos (first.2 enters), if_pos (last.2 enters)]
      exact .inl ⟨rfl, rfl⟩
    · rw [if_neg (mt first.1 enters), if_neg (mt last.1 enters)]
      exact .inr ⟨rfl, rfl, mt (entersNode_of_enters sound readable) enters⟩
  · rw [blanked_around sound apart unused bound, ofLines_arrange (sound.bare_keptLines _ _ _),
      sound.ofLines_keptLines]
    rfl

/-! ### Moving the block -/

/-- What is left of lines is the chart laid out as a program. -/
structure Spread (options : Options) (b : Block) (core lines : List Line) : Prop where
  readable : (readStatements options [] (blanked (keptPlaces lines) lines)).error? = none ↔
    (readStatements options [] (b.keptCore core)).error? = none
  closed : (readStatements options [] (b.keptCore core)).error? = none →
    (LineProgram.Closed (.ofLines options [] (blanked (keptPlaces lines) lines)) ↔
      (b.chart options core).Closed)
  laidOut : (readStatements options [] (b.keptCore core)).error? = none →
    (b.chart options core).Sound b.label → ∀ suffix : List Instruction, (∀ l, .flow (.mark l) ∉ suffix) →
      let p := LineProgram.ofLines options [] (blanked (keptPlaces lines) lines)
      ∃ place, (b.chart options core).LaidOut (.ofInstructions (p.code ++ suffix)) p place

/-- No statement of the chart uses the label at the end of the block. -/
theorem Unused.chart (unused : b.Unused core) (sound : b.Sound options)
    (readable : (readStatements options [] (b.keptCore core)).error? = none) (n : Node) (s : Statement)
    (line : (b.chart options core).line? n = some (some s)) : s.uses? ≠ some b.label := by
  obtain ⟨l, item, live, dead⟩ := conduct_of_chart sound readable line
  by_cases reaches : b.Reaches core n
  · have same : l.refersTo = s.uses? := (congrArg Conduct.refersTo (live reaches)).symm
    rw [← same]
    exact unused n l.conduct ((reaches_iff_liveNode item).1 reaches)
      ((item?_conduct b core n).trans (congrArg _ item))
  · have nothing : s.uses? = none := congrArg Conduct.refersTo (dead reaches)
    rw [nothing]
    nofun

/-- What is left of lines with the block among them is the chart, with the block where it stands. -/
theorem spread_around (sound : b.Sound options) (apart : b.Apart core) (unused : b.Unused core)
    (bound : position ≤ core.length) : b.Spread options core (arrange (some position) b.lines core) where
  readable := by
    rw [blanked_around sound apart unused bound]
    exact readable_arrange_iff (sound.bare_keptLines _ _ _) (sound.readable_keptLines _ _ _)
  closed := by
    intro readable
    obtain ⟨first, last, gates, program⟩ := exists_around sound apart unused readable bound
    rw [program]
    rw [← length_core_chart options b core] at bound
    exact Chart.closed_around_iff bound gates (unused.chart sound readable)
  laidOut := by
    intro readable chart suffix unmarked
    obtain ⟨first, last, gates, program⟩ := exists_around sound apart unused readable bound
    rw [program]
    rw [← length_core_chart options b core] at bound
    exact ⟨_, Chart.laidOut_around chart gates bound unmarked⟩

/-- No line that control reaches without the block goes to a label of the block. -/
def Foreign (b : Block) (core : List Line) : Prop :=
  ∀ l ∈ reachableLines core, ∀ name, l.refersTo = some name → ∀ l' ∈ b.lines, l'.marksLabel ≠ some name

/-- Where the core does not refer to the body, control reaches just the lines of the core that it reaches
    without the body. -/
theorem liveNode_iff_of_foreign (foreign : b.Foreign core) :
    LiveNode (core.map Line.conduct) (b.body.map Line.conduct) n ↔
      ∃ i, n = .core i ∧ Live (core.map Line.conduct) i := by
  apply liveNode_alone_iff
  intro k c name live here refers d member
  obtain ⟨l, line, rfl⟩ := exists_line_of_conduct here
  obtain ⟨l', member', rfl⟩ := List.mem_map.1 member
  exact foreign l (mem_reachableLines_iff.2 ⟨k, line, live⟩) name refers l' (b.body_subset member')

/-- A block that the reachable lines never refer to is not used by the program around it. -/
theorem Foreign.unused (foreign : b.Foreign core) (sound : b.Sound options) : b.Unused core := by
  intro n d live item refers
  obtain ⟨i, rfl, reached⟩ := (liveNode_iff_of_foreign foreign).1 live
  obtain ⟨l, line, rfl⟩ := exists_line_of_conduct item
  exact foreign l (mem_reachableLines_iff.2 ⟨i, line, reached⟩) b.label refers b.last b.last_mem
    (congrArg Conduct.marksLabel sound.conduct_last)

/-- What is left of the lines without the block is the chart too, if none of them needs the block. -/
theorem spread_alone (options : Options) (foreign : b.Foreign core) : b.Spread options core core := by
  classical
  have dead (i : Nat) : ¬ b.Reaches core (.body i) := by
    rintro (live | ⟨j, same, -⟩)
    · obtain ⟨j, same, -⟩ := (liveNode_iff_of_foreign foreign).1 live
      cases same
    · cases same
  have kept : blanked (keptPlaces core) core = b.keptCore core := by
    apply blanked_congr
    intro i inside
    have here : core[i]? = some core[i] := List.getElem?_eq_getElem inside
    rw [Bool.eq_iff_iff, keptPlaces_iff_live here, decide_eq_true_iff,
      reaches_iff_liveNode (n := .core i) here, liveNode_iff_of_foreign foreign]
    simp
  have empty (s : Statement) : some s ∉ (b.chart options core).body := by
    intro member
    obtain ⟨vs, l, left, read⟩ := LineProgram.exists_of_mem_ofLines member
    obtain ⟨i, here⟩ := List.mem_iff_getElem?.1 left
    exact dead i (of_decide_eq_true (keep_of_blanked_statement here read).1)
  constructor
  · rw [kept]
  · intro _
    rw [kept]
    exact Chart.closed_alone_iff empty
  · intro _ _ suffix _
    rw [kept]
    exact ⟨_, Chart.laidOut_alone dead empty _⟩

end

section

variable {options : Options} {b : Block} {core lines lines' : List Line} {lowered : Lowered}

/-- What lowering the reachable lines gives, said of the program of lines that remains when the others are
    blanked. -/
theorem lower_reachableLines_iff :
    (lower { options } (reachableLines lines)).1 = .ok lowered ↔
      (readStatements options [] (blanked (keptPlaces lines) lines)).error? = none ∧
        LineProgram.Closed (.ofLines options [] (blanked (keptPlaces lines) lines)) ∧
        lowered = ⟨LineProgram.code (.ofLines options [] (blanked (keptPlaces lines) lines)),
          (blanked (keptPlaces lines) lines).filterMap Line.decoration?⟩ := by
  rw [← lower_blanked, lower_eq_ok_iff]

/-- Lines that leave one chart are lowered to programs that come to the same. -/
theorem Spread.equivalent (left : b.Spread options core lines) (right : b.Spread options core lines')
    (sound : b.Sound options) (apart : b.Apart core)
    (accepted : (lower { options } (reachableLines lines)).1 = .ok lowered) :
    ∃ lowered', (lower { options } (reachableLines lines')).1 = .ok lowered' ∧
      ∀ suffix, suffix = [] ∨ suffix = [.flow .exit] →
        (Program.ofInstructions (lowered.instructions ++ suffix)).Equivalent
          (.ofInstructions (lowered'.instructions ++ suffix)) := by
  obtain ⟨readable, closed, rfl⟩ := lower_reachableLines_iff.1 accepted
  have kept := left.readable.1 readable
  have chart := sound.chart apart kept ((left.closed kept).1 closed)
  refine ⟨_, lower_reachableLines_iff.2
    ⟨right.readable.2 kept, (right.closed kept).2 chart.closed, rfl⟩, ?_⟩
  intro suffix exit
  have unlabelled : ∀ i ∈ suffix, i.label? = none := by
    rcases exit with rfl | rfl <;> simp [Instruction.label?, FlowCommand.label?]
  have unmarked := unmarked_of_unlabelled unlabelled
  obtain ⟨place, laid⟩ := left.laidOut kept chart suffix unmarked
  obtain ⟨place', laid'⟩ := right.laidOut kept chart suffix unmarked
  exact Chart.equivalent_of_laidOut chart (LineProgram.wellFormed_ofLines _ _ _)
    (LineProgram.wellFormed_ofLines _ _ _) unlabelled laid laid'

/-- A label that a line goes to is the label of a line, when the lines can be lowered. -/
theorem exists_mark_of_lower (accepted : (lower { options } lines).1 = .ok lowered) {l : Line}
    (member : l ∈ lines) {name : String} (refers : l.refersTo = some name) :
    ∃ l' ∈ lines, l'.marksLabel = some name := by
  obtain ⟨readable, closed, -⟩ := lower_eq_ok_iff.1 accepted
  have conducts := LineProgram.map_conductOf_ofLines readable
  have made : l.conduct ∈ (LineProgram.ofLines options [] lines).map conductOf := by
    rw [conducts]
    exact List.mem_map_of_mem member
  obtain ⟨s?, statement, same⟩ := List.mem_map.1 made
  have uses : (conductOf s?).refersTo = some name := (congrArg Conduct.refersTo same).trans refers
  cases s? with
  | none => cases uses
  | some s =>
      have label := List.mem_map_of_mem (f := conductOf) (closed s name statement uses)
      rw [conducts] at label
      obtain ⟨l', member', marks⟩ := List.mem_map.1 label
      exact ⟨l', member', congrArg Conduct.marksLabel marks⟩

theorem foreign_of_lower (apart : b.Apart core)
    (accepted : (lower { options } (reachableLines core)).1 = .ok lowered) : b.Foreign core := by
  intro l member name refers l' block marks
  obtain ⟨l'', member'', marks'⟩ := exists_mark_of_lower accepted member refers
  exact apart.labels l'' (mem_of_mem_reachableLines member'') l' block name marks marks'

/-- A live node is a line that control reaches, wherever the block stands. -/
theorem mem_reachableLines_of_liveNode (sound : b.Sound options) {position : Nat}
    (bound : position ≤ core.length) {n : Node} {l : Line} (item : n.item? core b.body = some l)
    (live : LiveNode (core.map Line.conduct) (b.body.map Line.conduct) n) :
    l ∈ reachableLines (arrange (some position) b.lines core) := by
  have inside : position ≤ (core.map Line.conduct).length := by rwa [List.length_map]
  have reached := @LiveNode.live b.label position _ _ _ inside live
  rw [← sound.map_conduct, List.length_map] at reached
  exact mem_reachableLines_iff.2 ⟨_, arrange_getElem?_node bound item, reached⟩

/-- Lines that can be lowered leave the chart of the core, with the block at a position or without it, when no
    line outside that control reaches goes to the label at the end of the block. -/
theorem spread_of_lower (sound : b.Sound options) (apart : b.Apart core) {at? : Option Nat}
    (inside : ∀ c, at? = some c → c ≤ core.length)
    (accepted : (lower { options } (reachableLines (arrange at? b.lines core))).1 = .ok lowered)
    (unused : ∀ l ∈ reachableLines (arrange at? b.lines core), l ∉ b.lines → l.refersTo ≠ some b.label) :
    b.Spread options core (arrange at? b.lines core) ∧ b.Unused core ∧
      ∀ i l, core[i]? = some l → LiveNode (core.map Line.conduct) (b.body.map Line.conduct) (.core i) →
        l ∈ reachableLines (arrange at? b.lines core) := by
  cases at? with
  | none =>
      have foreign := foreign_of_lower apart accepted
      refine ⟨spread_alone options foreign, foreign.unused sound, ?_⟩
      intro i l here live
      obtain ⟨j, same, reached⟩ := (liveNode_iff_of_foreign foreign).1 live
      cases same
      exact mem_reachableLines_iff.2 ⟨i, here, reached⟩
  | some c =>
      have within := inside c rfl
      have reached {n : Node} {l : Line} := @mem_reachableLines_of_liveNode _ b core sound _ within n l
      have idle : b.Unused core := by
        intro n d live item refers
        obtain ⟨l, here, rfl⟩ := Option.map_eq_some_iff.1 ((item?_conduct b core n).symm.trans item)
        cases n with
        | core i =>
            have outside := apart.lines l (List.mem_of_getElem? here)
            exact unused l (reached here live) outside refers
        | body i => exact sound.unused l (List.mem_of_getElem? here) refers
      exact ⟨spread_around sound apart idle within, idle, fun i l here => reached here⟩

/-- The block may be put anywhere, or be moved, when no line outside that control reaches goes to the label
    at its end: the lines can be lowered as before, to a program that comes to the same, and control reaches
    no other lines outside. -/
theorem relocate (sound : b.Sound options) (apart : b.Apart core) {at? : Option Nat} {position : Nat}
    (inside : ∀ c, at? = some c → c ≤ core.length) (bound : position ≤ core.length)
    (accepted : (lower { options } (reachableLines (arrange at? b.lines core))).1 = .ok lowered)
    (unused : ∀ l ∈ reachableLines (arrange at? b.lines core), l ∉ b.lines → l.refersTo ≠ some b.label) :
    (∃ lowered',
      (lower { options } (reachableLines (arrange (some position) b.lines core))).1 = .ok lowered' ∧
        ∀ suffix, suffix = [] ∨ suffix = [.flow .exit] →
          (Program.ofInstructions (lowered.instructions ++ suffix)).Equivalent
            (.ofInstructions (lowered'.instructions ++ suffix))) ∧
      ∀ l ∈ reachableLines (arrange (some position) b.lines core),
        l ∈ b.lines ∨ l ∈ reachableLines (arrange at? b.lines core) := by
  obtain ⟨left, idle, kept⟩ := spread_of_lower sound apart inside accepted unused
  refine ⟨left.equivalent (spread_around sound apart idle bound) sound apart accepted, ?_⟩
  intro l member
  obtain ⟨k, here, reached⟩ := mem_reachableLines_iff.1 member
  rcases exists_of_arrange_getElem? bound here with ⟨n, item, rfl⟩ | ⟨-, rfl⟩ | ⟨-, rfl⟩
  · cases n with
    | body i => exact .inl (b.body_subset (List.mem_of_getElem? item))
    | core i =>
        have node := (keptPlaces_node sound apart idle bound item).1 ((keptPlaces_iff_live here).2 reached)
        exact .inr (kept i l item ((reaches_iff_liveNode (n := .core i) item).1 node))
  · exact .inl b.first_mem
  · exact .inl b.last_mem

end

end Block

end Whitespace.Assembly
