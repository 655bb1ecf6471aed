/-
Module: Whitespace.Proofs.Detours
Purpose: Programs of lines with a block that control jumps over. The body of the block is entered only by
  its labels and left only by returning, so it does not matter where in the program the block stands: a
  chart tells the lines without a place for the block, and programs in which one chart is laid out do the
  same, gliding over the block wherever they meet it.
Main exports: Node, arrange, Node.place, Chart, Chart.Sound, Chart.LaidOut, Chart.equivalent_of_laidOut,
  Chart.Gates, Chart.laidOut_around, Chart.laidOut_alone
-/
import Whitespace.Proofs.Gliding
import Whitespace.Proofs.ShakenLines

namespace Whitespace.Assembly

/-! ### Nodes -/

/-- A line of a chart: one of the lines around the block, or one of the body of the block. -/
inductive Node where
  | core (i : Nat)
  | body (i : Nat)

def Node.next : Node → Node
  | .core i => .core (i + 1)
  | .body i => .body (i + 1)

/-- Does the one line stand before the other in the same part? -/
def Node.Before : Node → Node → Prop
  | .core i, .core j | .body i, .body j => i < j
  | _, _ => False

/-- What stands at a node when the parts are given. -/
def Node.item? {α : Type} (core body : List α) : Node → Option α
  | .core i => core[i]?
  | .body i => body[i]?

/-! ### Arrangements -/

/-- The items of the core with a block put between them, before the item at a position; the items of the
    core alone when there is no position. -/
def arrange {α : Type} (at? : Option Nat) (block core : List α) : List α :=
  match at? with
  | none => core
  | some c => core.take c ++ (block ++ core.drop c)

/-- Where the item of a node stands when a block with a body of some length, a first and a last item is
    put at a position. -/
def Node.place (at? : Option Nat) (length : Nat) (n : Node) : Nat :=
  match at?, n with
  | none, .core i | none, .body i => i
  | some c, .core i => if i < c then i else i + (length + 2)
  | some c, .body i => c + 1 + i

section

variable {α : Type} {c : Nat} {core body : List α} {first last a : α}

/-- The line before the block keeps its place. -/
theorem Node.place_before (i length : Nat) : (Node.core i).place (some (i + 1)) length = i :=
  if_pos (Nat.lt_succ_self i)

/-- Behind the block there is the line of its position. -/
theorem Node.place_behind (position length : Nat) :
    (Node.core position).place (some position) length = position + (length + 1) + 1 := by
  rw [Node.place, if_neg (Nat.lt_irrefl position), Nat.add_assoc]

/-- Elsewhere lines of the core stay next to each other. -/
theorem Node.place_succ {i position : Nat} (elsewhere : i + 1 ≠ position) (length : Nat) :
    (Node.core (i + 1)).place (some position) length = (Node.core i).place (some position) length + 1 := by
  simp only [Node.place]
  split <;> split <;> omega

theorem arrange_length (front block core : List α) :
    arrange (some front.length) block (front ++ core) = front ++ block ++ core := by
  simp only [arrange, List.take_left, List.drop_left, List.append_assoc]

/-- All lines of the core are kept when a block is put between them. -/
theorem subset_arrange (at? : Option Nat) (block core : List α) : core ⊆ arrange at? block core := by
  cases at? with
  | none => exact List.Subset.refl core
  | some c =>
      intro a member
      rw [← List.take_append_drop c core] at member
      rw [arrange, List.mem_append, List.mem_append]
      exact (List.mem_append.1 member).imp_right .inr

/-- Items in front of an arrangement move the block. -/
theorem exists_append_arrange (front block : List α) {at? : Option Nat}
    (inside : ∀ c, at? = some c → c ≤ core.length) :
    ∃ at₁?, (∀ c, at₁? = some c → c ≤ (front ++ core).length) ∧
      front ++ arrange at? block core = arrange at₁? block (front ++ core) := by
  refine ⟨at?.map (front.length + ·), ?_, ?_⟩
  · intro c here
    obtain ⟨c', here', rfl⟩ := Option.map_eq_some_iff.1 here
    rw [List.length_append]
    exact Nat.add_le_add_left (inside c' here') _
  · cases at? with
    | none => rfl
    | some c =>
        simp only [arrange, Option.map_some, List.take_length_add_append, List.drop_length_add_append,
          List.append_assoc]

/-- The lines in front of a block keep their places, the block comes next, and the other lines follow. -/
theorem arrange_getElem? (bound : c ≤ core.length) (block : List α) (k : Nat) :
    (arrange (some c) block core)[k]? =
      if k < c then core[k]?
      else if k < c + block.length then block[k - c]? else core[k - block.length]? := by
  rw [arrange, List.getElem?_append, List.getElem?_append, List.length_take, Nat.min_eq_left bound,
    List.getElem?_drop]
  split
  · next before => rw [List.getElem?_take, if_pos before]
  · next behind =>
      by_cases inside : k < c + block.length
      · rw [if_pos inside, if_pos (by omega)]
      · rw [if_neg inside, if_neg (by omega)]
        congr 1
        omega

/-- A line of the core stands at the place of its node. -/
theorem arrange_getElem?_core (bound : c ≤ core.length) (i : Nat) :
    (arrange (some c) (first :: body ++ [last]) core)[(Node.core i).place (some c) body.length]? =
      core[i]? := by
  rw [arrange_getElem? bound]
  simp only [Node.place, List.length_append, List.length_cons, List.length_nil]
  split
  · rfl
  · next behind =>
      rw [if_neg (by omega), if_neg (by omega)]
      congr 1
      omega

/-- A line of the body stands at the place of its node. -/
theorem arrange_getElem?_body (bound : c ≤ core.length) {i : Nat} (inside : i < body.length) :
    (arrange (some c) (first :: body ++ [last]) core)[(Node.body i).place (some c) body.length]? =
      body[i]? := by
  have place : c + 1 + i - c = i + 1 := by omega
  rw [arrange_getElem? bound]
  simp only [Node.place, List.length_append, List.length_cons, List.length_nil]
  rw [if_neg (by omega), if_pos (by omega), place, List.cons_append, List.getElem?_cons_succ,
    List.getElem?_append_left inside]

/-- The item of a node stands at its place. -/
theorem arrange_getElem?_node (bound : c ≤ core.length) {n : Node} (item : n.item? core body = some a) :
    (arrange (some c) (first :: body ++ [last]) core)[n.place (some c) body.length]? = some a := by
  cases n with
  | core i => exact (arrange_getElem?_core bound i).trans item
  | body i => exact (arrange_getElem?_body bound (List.getElem?_eq_some_iff.1 item).1).trans item

theorem arrange_getElem?_first (bound : c ≤ core.length) :
    (arrange (some c) (first :: body ++ [last]) core)[c]? = some first := by
  rw [arrange_getElem? bound, if_neg (Nat.lt_irrefl c), if_pos (by simp), Nat.sub_self]
  rfl

theorem arrange_getElem?_last (bound : c ≤ core.length) :
    (arrange (some c) (first :: body ++ [last]) core)[c + (body.length + 1)]? = some last := by
  rw [arrange_getElem? bound, if_neg (by omega), if_pos (by simp), Nat.add_sub_cancel_left]
  simp

/-- What stands in the arrangement is an item of one of its nodes, or one of the two ends of the block. -/
theorem exists_of_arrange_getElem? (bound : c ≤ core.length) {k : Nat}
    (h : (arrange (some c) (first :: body ++ [last]) core)[k]? = some a) :
    (∃ n : Node, n.item? core body = some a ∧ k = n.place (some c) body.length) ∨
      (k = c ∧ a = first) ∨ (k = c + (body.length + 1) ∧ a = last) := by
  by_cases before : k < c
  · rw [arrange_getElem? bound, if_pos before] at h
    exact .inl ⟨.core k, h, (if_pos before).symm⟩
  by_cases behind : c + (body.length + 1) < k
  · refine .inl ⟨.core (k - (body.length + 2)), ?_, ?_⟩
    · rw [arrange_getElem? bound, if_neg before, if_neg (by simp; omega)] at h
      simpa [Node.item?] using h
    · simp only [Node.place]
      rw [if_neg (by omega)]
      omega
  obtain ⟨i, rfl⟩ : ∃ i, k = c + i := ⟨k - c, by omega⟩
  rcases Nat.lt_trichotomy i (body.length + 1) with inner | rfl | outer
  · cases i with
    | zero =>
        rw [Nat.add_zero, arrange_getElem?_first bound] at h
        exact .inr (.inl ⟨rfl, (Option.some.inj h).symm⟩)
    | succ i =>
        have place : c + (i + 1) = (Node.body i).place (some c) body.length := by
          simp only [Node.place]
          omega
        rw [place, arrange_getElem?_body bound (by omega)] at h
        exact .inl ⟨.body i, h, place⟩
  · rw [arrange_getElem?_last bound] at h
    exact .inr (.inr ⟨rfl, (Option.some.inj h).symm⟩)
  · omega
theorem Node.lt_of_place_lt {length i j : Nat}
    (h : (Node.core i).place (some c) length < (Node.core j).place (some c) length) : i < j := by
  simp only [Node.place] at h
  split at h <;> split at h <;> omega

end

/-! ### The chart of a program -/

/-- A program of lines around a block, and the nodes that control may come to. -/
structure Chart where
  core : LineProgram
  body : LineProgram
  live : Node → Prop

namespace Chart

def line? (chart : Chart) (n : Node) : Option (Option Statement) := n.item? chart.core chart.body

/-- Every label that a line uses is defined in one of the parts. -/
def Closed (chart : Chart) : Prop :=
  ∀ n s name, chart.line? n = some (some s) → s.uses? = some name →
    some (.label name) ∈ chart.core ∨ some (.label name) ∈ chart.body

/-- The chart makes sense: control stays among the live lines; the two parts define different labels, all
    that are used, and none of them is the one that ends the block; and the body does not run out. -/
structure Sound (chart : Chart) (exit : String) : Prop where
  first : chart.live (.core 0)
  following : ∀ {n s?}, chart.live n → chart.line? n = some s? → (conductOf s?).continues = true →
    chart.live n.next
  defined : ∀ {n name}, chart.line? n = some (some (.label name)) → chart.live n
  closed : chart.Closed
  separate : ∀ {name}, some (.label name) ∈ chart.core → some (.label name) ∉ chart.body
  unmarked : some (.label exit) ∉ chart.core ∧ some (.label exit) ∉ chart.body
  stops : ∀ {i s?}, chart.live (.body i) → chart.body[i]? = some s? →
    (conductOf s?).continues = true → i + 1 < chart.body.length
  wellFormed : ∀ {n s}, chart.line? n = some (some s) → s.WellFormed

/-- The line is the last that defines the label. -/
def LastLabel (chart : Chart) (name : String) (n : Node) : Prop :=
  chart.line? n = some (some (.label name)) ∧
    ∀ n', n.Before n' → chart.line? n' ≠ some (some (.label name))

/-- The live lines of the chart stand in a program of lines at the places that are given, and from the end
    of each of them control glides to the line that the chart has next. -/
structure LaidOut (chart : Chart) (P : Program) (p : LineProgram) (place : Node → Nat) : Prop where
  line : ∀ {n s?}, chart.live n → chart.line? n = some s? → p[place n]? = some s?
  finish : place (.core chart.core.length) = p.length
  start : Glides P 0 (p.place (place (.core 0)))
  onward : ∀ {i s?}, chart.live (.core i) → chart.core[i]? = some s? →
    (conductOf s?).continues = true →
    Glides P (p.place (place (.core i) + 1)) (p.place (place (.core (i + 1))))
  within : ∀ i, place (.body i) + 1 = place (.body (i + 1))
  label : ∀ {name n}, chart.LastLabel name n → p.labelPlace? name = some (place n + 1)

section

variable {chart : Chart} {exit : String}

/-- Every label that is used has a last line that defines it. -/
theorem Sound.exists_lastLabel (sound : chart.Sound exit) {n : Node} {s : Statement} {name : String}
    (line : chart.line? n = some (some s)) (uses : s.uses? = some name) :
    ∃ n', chart.LastLabel name n' := by
  have last {p : LineProgram} (member : some (Statement.label name) ∈ p) :
      ∃ j : Nat, p[j]? = some (some (.label name)) ∧ ∀ k, j < k → p[k]? ≠ some (some (.label name)) := by
    obtain ⟨t, place⟩ := LineProgram.exists_labelPlace member
    obtain ⟨j, -, here, later⟩ := LineProgram.labelPlace?_eq_some_iff.1 place
    exact ⟨j, here, later⟩
  rcases sound.closed n s name line uses with core | body
  · obtain ⟨j, here, later⟩ := last core
    refine ⟨.core j, here, ?_⟩
    rintro (k | k) before
    · exact later k before
    · cases before
  · obtain ⟨j, here, later⟩ := last body
    refine ⟨.body j, here, ?_⟩
    rintro (k | k) before
    · cases before
    · exact later k before

end

/-! ### Programs with one chart -/

/-- The same instruction of the same live line in two programs. Behind the code of all lines places are
    related when they are equally far behind it. -/
inductive Twin (chart : Chart) (p q : LineProgram) (place place' : Node → Nat) : Nat → Nat → Prop where
  | inside {n : Node} {s : Statement} {d : Nat} : chart.live n → chart.line? n = some (some s) →
      d < s.symbolic.length → Twin chart p q place place' (p.place (place n) + d) (q.place (place' n) + d)
  | past (d : Nat) : Twin chart p q place place' (p.code.length + d) (q.code.length + d)

section

variable {chart : Chart} {exit : String} {P Q : Program} {p q : LineProgram} {place place' : Node → Nat}

/-- From a live line of the core, control glides to the same instruction in both programs. -/
theorem met_core (sound : chart.Sound exit) (left : chart.LaidOut P p place)
    (right : chart.LaidOut Q q place') {i : Nat} (live : chart.live (.core i))
    (bound : i ≤ chart.core.length) :
    Met P Q (Twin chart p q place place') (p.place (place (.core i))) (q.place (place' (.core i))) := by
  induction rest : chart.core.length - i generalizing i with
  | zero =>
      obtain rfl : i = chart.core.length := by omega
      rw [left.finish, right.finish, LineProgram.place_of_length_le (Nat.le_refl _),
        LineProgram.place_of_length_le (Nat.le_refl _)]
      exact .of_related (.past 0)
  | succ n ih =>
      have here : chart.core[i]? = some chart.core[i] := List.getElem?_eq_getElem (by omega)
      have line : chart.line? (.core i) = some chart.core[i] := here
      rcases LineProgram.code_or_empty chart.core[i] with ⟨s, same, code⟩ | ⟨continues, empty⟩
      · rw [same] at line
        exact .of_related (.inside (d := 0) live line code)
      · have onward := left.onward live here continues
        have onward' := right.onward live here continues
        rw [empty (left.line live line)] at onward
        rw [empty (right.line live line)] at onward'
        exact .of_glides onward onward' (ih (sound.following live line continues) (by omega) (by omega))

/-- From a live line of the body, control glides to the same instruction in both programs. -/
theorem met_body (sound : chart.Sound exit) (left : chart.LaidOut P p place)
    (right : chart.LaidOut Q q place') {i : Nat} (live : chart.live (.body i))
    (bound : i < chart.body.length) :
    Met P Q (Twin chart p q place place') (p.place (place (.body i))) (q.place (place' (.body i))) := by
  induction rest : chart.body.length - i generalizing i with
  | zero => omega
  | succ n ih =>
      have here : chart.body[i]? = some chart.body[i] := List.getElem?_eq_getElem bound
      have line : chart.line? (.body i) = some chart.body[i] := here
      rcases LineProgram.code_or_empty chart.body[i] with ⟨s, same, code⟩ | ⟨continues, empty⟩
      · rw [same] at line
        exact .of_related (.inside (d := 0) live line code)
      · have more := sound.stops live here continues
        have met := ih (sound.following live line continues) more (by omega)
        rwa [← left.within, ← right.within, empty (left.line live line),
          empty (right.line live line)] at met

/-- From the end of a live line that continues, control comes to the same in both programs. -/
theorem met_after (sound : chart.Sound exit) (left : chart.LaidOut P p place)
    (right : chart.LaidOut Q q place') {n : Node} {s? : Option Statement} (live : chart.live n)
    (line : chart.line? n = some s?) (continues : (conductOf s?).continues = true) :
    Met P Q (Twin chart p q place place') (p.place (place n + 1)) (q.place (place' n + 1)) := by
  have following := sound.following live line continues
  cases n with
  | core i =>
      have bound : i < chart.core.length := (List.getElem?_eq_some_iff.1 line).1
      exact .of_glides (left.onward live line continues) (right.onward live line continues)
        (met_core sound left right following bound)
  | body i =>
      rw [left.within, right.within]
      exact met_body sound left right following (sound.stops live line continues)

/-- From an instruction of a live line that hands over to the next one, control comes to the same in both
    programs. -/
theorem met_next (sound : chart.Sound exit) (left : chart.LaidOut P p place)
    (right : chart.LaidOut Q q place') {n : Node} {s : Statement} {d : Nat} {x : Symbolic}
    (live : chart.live n) (line : chart.line? n = some (some s)) (here : s.symbolic[d]? = some x)
    (ret : x ≠ .fixed (.flow .ret)) (jump : ∀ r, x ≠ .branch .jump r) :
    Met P Q (Twin chart p q place place') (p.place (place n) + d + 1) (q.place (place' n) + d + 1) := by
  by_cases last : d + 1 = s.symbolic.length
  · have met := met_after sound left right live line (Statement.continues_of_last here ret jump last)
    rwa [LineProgram.place_succ (left.line live line), LineProgram.place_succ (right.line live line),
      ← last] at met
  · have bound : d < s.symbolic.length := (List.getElem?_eq_some_iff.1 here).1
    exact .of_related (.inside (d := d + 1) live line (by omega))

/-- A reference in a live line means places where control comes to the same, unless it only marks its
    place. -/
theorem exists_referents (sound : chart.Sound exit) (left : chart.LaidOut P p place)
    (right : chart.LaidOut Q q place') {n : Node} {s : Statement} {b : Branch} {r : Reference}
    (live : chart.live n) (line : chart.line? n = some (some s)) (h : .branch b r ∈ s.symbolic) :
    ∃ t t', p.referent? (place n) r = some t ∧ q.referent? (place' n) r = some t' ∧
      (b ≠ .mark → Met P Q (Twin chart p q place place') (p.place t) (q.place t')) := by
  cases r with
  | past =>
      have continues := Statement.continues_of_past h
      exact ⟨_, _, rfl, rfl, fun _ => met_after sound left right live line continues⟩
  | named name =>
      rcases Statement.defines_or_uses h with ⟨rfl, rfl⟩ | uses
      · obtain ⟨t, defined⟩ := LineProgram.exists_labelPlace (List.mem_of_getElem? (left.line live line))
        obtain ⟨t', defined'⟩ :=
          LineProgram.exists_labelPlace (List.mem_of_getElem? (right.line live line))
        exact ⟨t, t', defined, defined', fun marks => absurd rfl marks⟩
      · obtain ⟨n', label⟩ := sound.exists_lastLabel line uses
        refine ⟨_, _, left.label label, right.label label, fun _ => ?_⟩
        exact met_after sound left right (sound.defined label.1) label.1 rfl

end

section

variable {chart : Chart} {exit : String} {p q : LineProgram} {place place' : Node → Nat}
  {suffix : List Instruction}

/-- Programs in which one chart is laid out do the same, also when the same instructions without labels
    are put behind both. -/
theorem lockstep_of_laidOut (sound : chart.Sound exit) (wf : p.WellFormed) (wf' : q.WellFormed)
    (unlabelled : ∀ i ∈ suffix, i.label? = none)
    (left : chart.LaidOut (.ofInstructions (p.code ++ suffix)) p place)
    (right : chart.LaidOut (.ofInstructions (q.code ++ suffix)) q place') :
    LockstepAfterGliding (.ofInstructions (p.code ++ suffix)) (.ofInstructions (q.code ++ suffix))
      (Twin chart p q place place') := by
  have unmarked := unmarked_of_unlabelled unlabelled
  have layout := layout_ofInstructions wf unmarked
  have layout' := layout_ofInstructions wf' unmarked
  rintro i j (⟨live, line, bound⟩ | d)
  · next n s d =>
    refine .inr ?_
    have here := List.getElem?_eq_getElem bound
    have line₁ := left.line live line
    have line₂ := right.line live line
    refine ⟨_, _, layout.fetch line₁ here, layout'.fetch line₂ here,
      .of_layout layout layout' (wf _ s line₁) line₁ line₂ here ?_ ?_⟩
    · exact met_next sound left right live line here
    · rintro b r same
      rw [same] at here
      exact exists_referents sound left right live line (List.mem_of_getElem? here)
  · exact Corresponds.of_suffix unlabelled (.of_related (.past (d + 1)))

/-- Programs in which one chart is laid out come to the same. -/
theorem equivalent_of_laidOut (sound : chart.Sound exit) (wf : p.WellFormed) (wf' : q.WellFormed)
    (unlabelled : ∀ i ∈ suffix, i.label? = none)
    (left : chart.LaidOut (.ofInstructions (p.code ++ suffix)) p place)
    (right : chart.LaidOut (.ofInstructions (q.code ++ suffix)) q place') :
    (Program.ofInstructions (p.code ++ suffix)).Equivalent (.ofInstructions (q.code ++ suffix)) :=
  Program.equivalent_of_lockstep (lockstep_of_laidOut sound wf wf' unlabelled left right)
    (.of_glides left.start right.start (met_core sound left right sound.first (Nat.zero_le _)))

end

/-! ### With the block and without it -/

section

variable {chart : Chart} {exit : String} {c : Nat} {first last : Option Statement}

/-- Control comes to the line after a position of the core from the line before it, or at the start. -/
def Enters (chart : Chart) (c : Nat) : Prop :=
  c = 0 ∨ ∃ i s?, c = i + 1 ∧ chart.live (.core i) ∧ chart.core[i]? = some s? ∧
    (conductOf s?).continues = true

/-- The ends of the block as they stand at a position: a jump over the block to the label behind it, or
    nothing where control does not come to the block. -/
def Gates (chart : Chart) (exit : String) (c : Nat) (first last : Option Statement) : Prop :=
  (first = some (.jump .always exit) ∧ last = some (.label exit)) ∨
    (first = none ∧ last = none ∧ ¬ chart.Enters c)

/-- The program of a chart with its block at a position. -/
def around (chart : Chart) (c : Nat) (first last : Option Statement) : LineProgram :=
  arrange (some c) (first :: chart.body ++ [last]) chart.core

/-- The chart laid out with the block among its lines is well formed. -/
theorem around_wellFormed (sound : chart.Sound exit) (gates : chart.Gates exit c first last)
    (bound : c ≤ chart.core.length) : (chart.around c first last).WellFormed := by
  intro k s line
  rcases exists_of_arrange_getElem? bound line with ⟨n, line', -⟩ | ⟨-, same⟩ | ⟨-, same⟩
  · exact sound.wellFormed line'
  · rcases gates with ⟨rfl, -⟩ | ⟨rfl, -⟩ <;> cases same
    trivial
  · rcases gates with ⟨-, rfl⟩ | ⟨-, rfl, -⟩ <;> cases same
    trivial

/-- No line of the chart defines the label behind the block. -/
theorem Sound.line?_ne_exit (sound : chart.Sound exit) (n : Node) :
    chart.line? n ≠ some (some (.label exit)) := by
  intro line
  cases n with
  | core i => exact sound.unmarked.1 (List.mem_of_getElem? line)
  | body i => exact sound.unmarked.2 (List.mem_of_getElem? line)

/-- The label behind the block is the only one of its name. -/
theorem labelPlace?_exit (sound : chart.Sound exit) (bound : c ≤ chart.core.length) :
    (chart.around c (some (.jump .always exit)) (some (.label exit))).labelPlace? exit =
      some (c + (chart.body.length + 2)) := by
  rw [LineProgram.labelPlace?_eq_some_iff]
  refine ⟨c + (chart.body.length + 1), rfl, arrange_getElem?_last bound, ?_⟩
  intro k behind line
  rcases exists_of_arrange_getElem? bound line with ⟨n, line', -⟩ | ⟨-, same⟩ | ⟨rfl, -⟩
  · exact sound.line?_ne_exit n line'
  · cases same
  · omega

/-- The other labels have the places of their last lines. -/
theorem labelPlace?_around (sound : chart.Sound exit) (gates : chart.Gates exit c first last)
    (bound : c ≤ chart.core.length) {name : String} {n : Node} (label : chart.LastLabel name n) :
    (chart.around c first last).labelPlace? name = some (n.place (some c) chart.body.length + 1) := by
  rw [LineProgram.labelPlace?_eq_some_iff]
  refine ⟨_, rfl, arrange_getElem?_node bound label.1, ?_⟩
  intro k behind line
  rcases exists_of_arrange_getElem? bound line with ⟨n', line', rfl⟩ | ⟨-, same⟩ | ⟨-, same⟩
  · refine label.2 n' ?_ line'
    cases n with
    | core i =>
        cases n' with
        | core j => exact Node.lt_of_place_lt behind
        | body j =>
            exact absurd (List.mem_of_getElem? line') (sound.separate (List.mem_of_getElem? label.1))
    | body i =>
        cases n' with
        | core j =>
            exact absurd (List.mem_of_getElem? label.1) (sound.separate (List.mem_of_getElem? line'))
        | body j => exact Nat.lt_of_add_lt_add_left behind
  · rcases gates with ⟨rfl, -⟩ | ⟨rfl, -⟩ <;> cases same
  · rcases gates with ⟨-, rfl⟩ | ⟨-, rfl, -⟩ <;> cases same
    exact absurd label.1 (sound.line?_ne_exit n)

/-- Where control comes to the block, it glides over it. -/
theorem glides_around (sound : chart.Sound exit) (gates : chart.Gates exit c first last)
    (bound : c ≤ chart.core.length) (enters : chart.Enters c) {suffix : List Instruction}
    (unmarked : ∀ l, .flow (.mark l) ∉ suffix) :
    Glides (.ofInstructions ((chart.around c first last).code ++ suffix))
      ((chart.around c first last).place c)
      ((chart.around c first last).place (c + (chart.body.length + 2))) := by
  have wf := around_wellFormed sound gates bound
  rcases gates with ⟨rfl, rfl⟩ | ⟨-, -, avoided⟩
  · have layout := layout_ofInstructions wf unmarked
    have jump := @arrange_getElem?_first _ c chart.core chart.body (some (.jump .always exit))
      (some (.label exit)) bound
    refine .jump (layout.fetch (d := 0) jump rfl) (layout.target (r := .named exit) jump (.head _) ?_)
      (.here _)
    exact labelPlace?_exit sound bound
  · exact absurd enters avoided

/-- The chart is laid out where its block stands at a position. -/
theorem laidOut_around (sound : chart.Sound exit) (gates : chart.Gates exit c first last)
    (bound : c ≤ chart.core.length) {suffix : List Instruction}
    (unmarked : ∀ l, .flow (.mark l) ∉ suffix) :
    chart.LaidOut (.ofInstructions ((chart.around c first last).code ++ suffix))
      (chart.around c first last) (Node.place (some c) chart.body.length) where
  line _ line := arrange_getElem?_node bound line
  finish := by
    simp only [Node.place, around, arrange, List.length_append, List.length_take, List.length_cons,
      List.length_drop, List.length_nil]
    split <;> omega
  start := by
    simp only [Node.place]
    split
    · exact .here _
    · next first =>
        obtain rfl : c = 0 := by omega
        exact glides_around sound gates bound (.inl rfl) unmarked
  onward := by
    intro i s? live line continues
    by_cases here : i + 1 = c
    · subst here
      rw [Node.place_before, Node.place_behind]
      exact glides_around sound gates bound (.inr ⟨i, s?, rfl, live, line, continues⟩) unmarked
    · rw [Node.place_succ here]
      exact .here _
  within _ := rfl
  label label := labelPlace?_around sound gates bound label

/-- The chart is laid out where its block is left out, when control comes to no line of the body. -/
theorem laidOut_alone (dead : ∀ i, ¬ chart.live (.body i))
    (empty : ∀ s, some s ∉ chart.body) (P : Program) :
    chart.LaidOut P chart.core (Node.place none chart.body.length) where
  line := by
    intro n s? live line
    cases n with
    | core i => exact line
    | body i => exact absurd live (dead i)
  finish := rfl
  start := .here _
  onward _ _ _ := .here _
  within _ := rfl
  label := by
    intro name n label
    cases n with
    | core i => exact LineProgram.labelPlace?_eq_some_iff.2 ⟨i, rfl, label.1, fun k => label.2 (.core k)⟩
    | body i => exact absurd (List.mem_of_getElem? label.1) (empty _)

/-- A line of the chart is a line of the program around its block. -/
theorem mem_around_of_line? (bound : c ≤ chart.core.length) {n : Node} {s? : Option Statement}
    (line : chart.line? n = some s?) : s? ∈ chart.around c first last := by
  apply List.mem_of_getElem? (i := n.place (some c) chart.body.length)
  cases n with
  | core i => exact (arrange_getElem?_core bound i).trans line
  | body i => exact (arrange_getElem?_body bound (List.getElem?_eq_some_iff.1 line).1).trans line

theorem exists_line?_of_mem {s? : Option Statement} (h : s? ∈ chart.core ∨ s? ∈ chart.body) :
    ∃ n, chart.line? n = some s? := by
  rcases h with core | body
  · obtain ⟨i, here⟩ := List.mem_iff_getElem?.1 core
    exact ⟨.core i, here⟩
  · obtain ⟨i, here⟩ := List.mem_iff_getElem?.1 body
    exact ⟨.body i, here⟩

theorem mem_or_mem_of_line? {n : Node} {s? : Option Statement} (line : chart.line? n = some s?) :
    s? ∈ chart.core ∨ s? ∈ chart.body := by
  cases n with
  | core i => exact .inl (List.mem_of_getElem? line)
  | body i => exact .inr (List.mem_of_getElem? line)

/-- Between its ends the block uses no other labels than without them. -/
theorem closed_around_iff (bound : c ≤ chart.core.length) (gates : chart.Gates exit c first last)
    (unused : ∀ n s, chart.line? n = some (some s) → s.uses? ≠ some exit) :
    (chart.around c first last).Closed ↔ chart.Closed := by
  have source {s : Statement} (member : some s ∈ chart.around c first last) :
      (∃ n, chart.line? n = some (some s)) ∨ (first = some s ∧ s = .jump .always exit) ∨
        s = .label exit := by
    obtain ⟨k, here⟩ := List.mem_iff_getElem?.1 member
    rcases exists_of_arrange_getElem? bound here with ⟨n, line, -⟩ | ⟨-, same⟩ | ⟨-, same⟩
    · exact .inl ⟨n, line⟩
    · rcases gates with ⟨rfl, -⟩ | ⟨rfl, -⟩ <;> cases same
      exact .inr (.inl ⟨rfl, rfl⟩)
    · rcases gates with ⟨-, rfl⟩ | ⟨-, rfl, -⟩ <;> cases same
      exact .inr (.inr rfl)
  constructor
  · intro closed n s name line uses
    rcases source (closed s name (mem_around_of_line? bound line) uses) with ⟨n', line'⟩ | ⟨-, same⟩ | same
    · exact mem_or_mem_of_line? line'
    · cases same
    · cases same
      exact absurd uses (unused n s line)
  · intro closed s name member uses
    rcases source member with ⟨n, line⟩ | ⟨jump, rfl⟩ | rfl
    · obtain ⟨n', line'⟩ := exists_line?_of_mem (closed n s name line uses)
      exact mem_around_of_line? bound line'
    · obtain rfl : exit = name := Option.some.inj uses
      rcases gates with ⟨-, rfl⟩ | ⟨rfl, -⟩
      · exact List.mem_of_getElem? (arrange_getElem?_last bound)
      · cases jump
    · cases uses

/-- Without its block the chart is closed when the core is, if the body is empty. -/
theorem closed_alone_iff (empty : ∀ s, some s ∉ chart.body) : chart.core.Closed ↔ chart.Closed := by
  constructor
  · intro closed n s name line uses
    cases n with
    | core i => exact .inl (closed s name (List.mem_of_getElem? line) uses)
    | body i => exact absurd (List.mem_of_getElem? line) (empty s)
  · intro closed s name member uses
    obtain ⟨i, here⟩ := List.mem_iff_getElem?.1 member
    exact (closed (.core i) s name here uses).resolve_right (empty _)

end

end Chart

end Whitespace.Assembly
