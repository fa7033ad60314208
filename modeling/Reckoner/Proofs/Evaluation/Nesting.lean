import Reckoner.Proofs.Evaluation.Balanced

set_option autoImplicit false

/- Expressions as trees. A text whose parentheses all have partners is a tree of groups. The evaluation
goes over the text once and solves each group where it closes; this is the recursion on the tree
that solves the groups in a group from left to right before the group itself. -/
namespace Reckoner

def Event.isGroupFound : Event → Bool
  | groupFound _ => true
  | _ => false

/-- The segment that is about to be solved, if the event tells of one. -/
def Event.segment? : Event → Option Text
  | segmentFound t => some t
  | _ => none

variable {context : Context} {t u : Text} {position depth d : Nat}

theorem events_solveCalls (context : Context) (done rest : Text) :
    ∀ e ∈ (solveCalls context done rest).events, ∃ call x u, e = .callSolved call x u := by
  fun_induction solveCalls context done rest with
  | case1 => exact nofun
  | case2 => exact nofun
  | case3 _ _ _ _ _ _ _ _ _ _ ih => exact ih
  | case4 done rest before c r _ name after argument tail _ ih ih' =>
    intro e member
    rcases Traced.mem_events_bind member with none | ⟨x, _, member⟩
    · cases none
    · rcases Traced.mem_events_bind member with this | ⟨_, _, member⟩
      · rw [List.mem_singleton.1 this]
        exact ⟨_, _, _, rfl⟩
      · split at member
        · exact ih x _ member
        · exact ih' x _ member

theorem events_solveRank (context : Context) (rank : Rank) (t : Text) :
    ∀ e ∈ (solveRank context rank t).events,
      ∃ left operator right x u, e = .operationSolved rank left operator right x u := by
  fun_induction solveRank context rank t with
  | case1 => exact nofun
  | case2 t before operation after _ ih =>
    intro e member
    rcases Traced.mem_events_bind member with none | ⟨x, _, member⟩
    · cases none
    · rcases Traced.mem_events_bind member with this | ⟨_, _, member⟩
      · rw [List.mem_singleton.1 this]
        exact ⟨_, _, _, _, _, rfl⟩
      · exact ih x e member

theorem events_solveOperations (context : Context) (t : Text) :
    ∀ e ∈ (solveOperations context t).events,
      ∃ rank left operator right x u, e = .operationSolved rank left operator right x u := by
  unfold solveOperations
  generalize Rank.all = ranks
  induction ranks generalizing t with
  | nil => exact nofun
  | cons rank ranks ih =>
    intro e member
    rw [List.foldlM_cons] at member
    rcases Traced.mem_events_bind member with here | ⟨u, _, later⟩
    · exact ⟨rank, events_solveRank context rank t e here⟩
    · exact ih u e later

/-- A segment passes by its text once, and by no group. -/
theorem events_solveSegment (context : Context) (t : Text) :
    ((solveSegment context t).events.filterMap Event.segment? = [t]) ∧
      ∀ e ∈ (solveSegment context t).events, e.isGroupFound = false := by
  let solved : Traced Failure Text := do
    let t ← solveCalls context [] t
    Traced.emit (.callsSolved t)
    let t ← (solveOperations context t).mapError .fault
    return markValue t
  have rest : ∀ e ∈ solved.events, e.segment? = none ∧ e.isGroupFound = false := by
    intro e member
    rcases Traced.mem_events_bind member with here | ⟨u, _, member⟩
    · obtain ⟨_, _, _, rfl⟩ := events_solveCalls context [] t e here
      exact ⟨rfl, rfl⟩
    · rcases Traced.mem_events_bind member with here | ⟨_, _, member⟩
      · rw [List.mem_singleton.1 here]
        exact ⟨rfl, rfl⟩
      · rcases Traced.mem_events_bind member with here | ⟨_, _, none⟩
        · obtain ⟨_, _, _, _, _, _, rfl⟩ := events_solveOperations context u e here
          exact ⟨rfl, rfl⟩
        · cases none
  have events : (solveSegment context t).events = .segmentFound t :: solved.events := rfl
  rw [events]
  refine ⟨?_, List.forall_mem_cons.2 ⟨rfl, fun e member => (rest e member).2⟩⟩
  have none := List.filterMap_eq_nil_iff.2 fun e member => (rest e member).1
  exact congrArg (t :: ·) none

/-- A text as a tree: characters, and groups with what is in them. -/
inductive Nesting
  | nil
  | char (c : Char) (open' : c ≠ '(') (close : c ≠ ')') (rest : Nesting)
  | group (inner rest : Nesting)

namespace Nesting

def text : Nesting → Text
  | nil => []
  | char c _ _ rest => c :: rest.text
  | group inner rest => '(' :: (inner.text ++ ')' :: rest.text)

/-- The text without parentheses that is left when the groups in the tree have given way to their
values, from left to right. -/
def flatten (context : Context) : Nesting → Traced Failure Text
  | nil => pure []
  | char c _ _ rest => do
    let u ← rest.flatten context
    return c :: u
  | group inner rest => do
    let t ← inner.flatten context
    let value ← solveSegment context t
    let u ← rest.flatten context
    return value ++ u

/-- The value of a group, in marks: first those of the groups in it, then its own. -/
def solve (context : Context) (tree : Nesting) : Traced Failure Text := do
  let t ← tree.flatten context
  solveSegment context t

def evaluate (context : Context) (tree : Nesting) : Traced Failure Float := do
  Traced.emit .evaluationStarted
  let t ← tree.solve context
  let x ← Traced.ofExcept ((resolveOperand context t).mapError .fault)
  Traced.emit (.evaluated x)
  return x

/-- The groups in a tree, each behind those in it. -/
def inside : Nesting → List Nesting
  | nil => []
  | char _ _ _ rest => rest.inside
  | group inner rest => inner.inside ++ inner :: rest.inside

/-- The groups in the order in which they are solved. The whole is the last one. -/
def groups (tree : Nesting) : List Nesting := tree.inside ++ [tree]

theorem length_inside (tree : Nesting) : tree.inside.length = tree.text.count '(' := by
  induction tree with
  | nil => rfl
  | char c open' close rest ih => simp [inside, text, open', ih]
  | group inner rest ih ih' =>
    simp [inside, text, ih, ih']
    omega

/-- A text is one tree only. -/
theorem eq_of_text_append {tree other : Nesting}
    (same : tree.text ++ t = other.text ++ u) (last : ∀ c ∈ t.head?, c = ')')
    (last' : ∀ c ∈ u.head?, c = ')') : tree = other ∧ t = u := by
  induction tree generalizing other t u with
  | nil =>
    cases other with
    | nil => exact ⟨rfl, same⟩
    | char c open' close rest =>
      simp only [text, List.nil_append, List.cons_append] at same
      subst same
      exact absurd (last c rfl) close
    | group inner rest =>
      simp only [text, List.nil_append, List.cons_append] at same
      subst same
      exact absurd (last '(' rfl) (by decide)
  | char c open' close rest ih =>
    cases other with
    | nil =>
      simp only [text, List.nil_append, List.cons_append] at same
      subst same
      exact absurd (last' c rfl) close
    | char c' _ _ rest' =>
      injection same with first after
      obtain ⟨rfl, rest⟩ := ih after last last'
      subst first
      exact ⟨rfl, rest⟩
    | group inner rest' =>
      injection same with first after
      exact absurd first open'
  | group inner rest ih ih' =>
    cases other with
    | nil =>
      simp only [text, List.nil_append, List.cons_append] at same
      subst same
      have first := last' '(' rfl
      exact absurd first (by decide)
    | char c' open' _ rest' =>
      injection same with first after
      exact absurd first.symm open'
    | group inner' rest' =>
      injection same with first after
      simp only [List.append_assoc, List.append_eq, List.cons_append] at after
      obtain ⟨rfl, behind⟩ := ih after (by simp) (by simp)
      injection behind with _ behind
      obtain ⟨rfl, rest⟩ := ih' behind last last'
      exact ⟨rfl, rest⟩

theorem text_injective : Function.Injective text := fun tree other same =>
  (eq_of_text_append (t := []) (u := []) (by rw [same]) nofun nofun).1

end Nesting

theorem Balanced.exists_nesting (h : Balanced t) : ∃ tree : Nesting, tree.text = t := by
  induction h with
  | nil => exact ⟨.nil, rfl⟩
  | @char c t open' close _ ih =>
    obtain ⟨rest, rfl⟩ := ih
    exact ⟨.char c open' close rest, rfl⟩
  | @group t u _ _ ih ih' =>
    obtain ⟨inner, rfl⟩ := ih
    obtain ⟨rest, rfl⟩ := ih'
    exact ⟨.group inner rest, rfl⟩

/-- Up to the events that show the whole text, a tree is flattened in its place: what stands around
it has no part in that. The induction is on the tree, since a group closes where its text ends. -/
theorem solveGroups_text (tree : Nesting) (outer : List Text) (inner rest : Text) :
    (solveGroups context outer inner (tree.text ++ rest)).filter (!·.isGroupFound) =
      (tree.flatten context >>= fun u =>
        solveGroups context outer (u.reverse ++ inner) rest).filter (!·.isGroupFound) := by
  induction tree generalizing outer inner rest with
  | nil => rfl
  | char c open' close tree ih =>
    have passed : solveGroups context outer inner (c :: (tree.text ++ rest)) =
        solveGroups context outer (c :: inner) (tree.text ++ rest) := by
      rw [solveGroups, if_neg open', if_neg close]
    rw [Nesting.text, List.cons_append, passed, ih]
    simp only [Nesting.flatten, bind_assoc, pure_bind, List.reverse_cons, List.append_assoc,
      List.cons_append, List.nil_append]
  | group tree after ih ih' =>
    have opened : solveGroups context outer inner
          ('(' :: (tree.text ++ ')' :: after.text) ++ rest) =
        solveGroups context (inner :: outer) [] (tree.text ++ ')' :: (after.text ++ rest)) := by
      rw [List.cons_append, solveGroups, if_pos rfl, List.append_assoc, List.cons_append]
    have closed (u : Text) :
        (solveGroups context (inner :: outer) (u.reverse ++ []) (')' :: (after.text ++ rest))).filter
            (!·.isGroupFound) =
          (solveSegment context u).filter (!·.isGroupFound) >>= fun value =>
            (after.flatten context >>= fun v => solveGroups context outer
              ((value ++ v).reverse ++ inner) rest).filter (!·.isGroupFound) := by
      rw [solveGroups, if_neg (by decide), if_pos rfl, Traced.filter_emit_bind rfl,
        List.append_nil, List.reverse_reverse, Traced.filter_bind]
      simp only [ih', List.reverse_append, List.reverseAux_eq, List.append_assoc]
    rw [Nesting.text, opened, ih, Traced.filter_bind]
    simp only [closed, Nesting.flatten, bind_assoc, pure_bind, Traced.filter_bind]

/-- The evaluation of a text as its tree is evaluated. -/
theorem solveExpression_text (tree : Nesting) :
    (solveExpression context tree.text).filter (!·.isGroupFound) =
      (tree.evaluate context).filter (!·.isGroupFound) := by
  have closed (u : Text) :
      (solveGroups context [] (u.reverse ++ []) [')']).filter (!·.isGroupFound) =
        (solveSegment context u).filter (!·.isGroupFound) := by
    rw [solveGroups, if_neg (by decide), if_pos rfl, Traced.filter_emit_bind rfl, List.append_nil,
      List.reverse_reverse]
    simp only [List.append_nil, bind_pure]
  have groups : (solveGroups context [] [] (tree.text ++ [')'])).filter (!·.isGroupFound) =
      (tree.solve context).filter (!·.isGroupFound) := by
    rw [solveGroups_text, Traced.filter_bind, Nesting.solve, Traced.filter_bind]
    simp only [closed]
  simp only [solveExpression, Nesting.evaluate, Traced.filter_bind, groups]

theorem Nesting.events_flatten (tree : Nesting) :
    ∀ e ∈ (tree.flatten context).events, e.isGroupFound = false := by
  induction tree with
  | nil => exact nofun
  | char c _ _ rest ih =>
    intro e member
    rcases Traced.mem_events_bind member with here | ⟨_, _, none⟩
    · exact ih e here
    · cases none
  | group inner rest ih ih' =>
    intro e member
    rcases Traced.mem_events_bind member with here | ⟨t, _, member⟩
    · exact ih e here
    · rcases Traced.mem_events_bind member with here | ⟨_, _, member⟩
      · exact (events_solveSegment context t).2 e here
      · rcases Traced.mem_events_bind member with here | ⟨_, _, none⟩
        · exact ih' e here
        · cases none

theorem Nesting.filter_evaluate (tree : Nesting) :
    (tree.evaluate context).filter (!·.isGroupFound) = tree.evaluate context := by
  refine Traced.filter_of_forall fun e member => ?_
  rw [Bool.not_eq_true']
  rcases Traced.mem_events_bind member with here | ⟨_, _, member⟩
  · rw [List.mem_singleton.1 here]
    rfl
  · rcases Traced.mem_events_bind member with solved | ⟨_, _, member⟩
    · rcases Traced.mem_events_bind solved with here | ⟨t, _, here⟩
      · exact tree.events_flatten e here
      · exact (events_solveSegment context t).2 e here
    · rcases Traced.mem_events_bind member with none | ⟨_, _, member⟩
      · cases none
      · rcases Traced.mem_events_bind member with here | ⟨_, _, none⟩
        · rw [List.mem_singleton.1 here]
          rfl
        · cases none

/-- Each time the whole text is shown one segment is solved, also where groups stay open or nothing
is closed. -/
theorem countP_groupFound (outer : List Text) (inner rest : Text) :
    (solveGroups context outer inner rest).events.countP Event.isGroupFound =
      ((solveGroups context outer inner rest).events.filterMap Event.segment?).length := by
  have step (f : Text → Traced Failure Text) (whole t : Text)
      (next : ∀ value, (f value).events.countP Event.isGroupFound =
        ((f value).events.filterMap Event.segment?).length) :
      (Traced.emit (.groupFound whole) >>= fun _ => solveSegment context t >>= f).events.countP
          Event.isGroupFound =
        ((Traced.emit (.groupFound whole) >>= fun _ =>
          solveSegment context t >>= f).events.filterMap Event.segment?).length := by
    obtain ⟨segments, quiet⟩ := events_solveSegment context t
    have none : (solveSegment context t).events.countP Event.isGroupFound = 0 :=
      List.countP_eq_zero.2 fun e member => by simp [quiet e member]
    have shown : (Traced.emit (.groupFound whole) >>= fun _ => solveSegment context t >>= f).events =
        .groupFound whole :: (solveSegment context t >>= f).events := rfl
    have skipped : Event.segment? (.groupFound whole) = Option.none := rfl
    rw [shown, List.countP_cons_of_pos rfl, List.filterMap_cons_none skipped]
    cases solved : (solveSegment context t).outcome with
    | error e =>
      rw [Traced.events_bind_error solved, none, segments]
      rfl
    | ok value =>
      rw [Traced.events_bind solved, List.countP_append, List.filterMap_append, none, segments,
        next value, List.length_append]
      simp only [List.length_singleton]
      omega
  fun_induction solveGroups context outer inner rest with
  | case1 => rfl
  | case2 _ _ _ ih => exact ih
  | case3 outer inner r _ ih =>
    refine step _ _ _ fun value => ?_
    cases outer with
    | nil => rfl
    | cons beginning outer => exact ih value beginning outer
  | case4 _ _ _ _ _ _ ih => exact ih

namespace Nesting

theorem outcome_flatten_group (inner rest : Nesting) :
    ((group inner rest).flatten context).outcome =
      (inner.solve context).outcome.bind fun value =>
        (rest.flatten context).outcome.bind fun u => .ok (value ++ u) := by
  simp only [flatten, solve, Traced.outcome_bind, Traced.outcome_pure]
  cases (inner.flatten context).outcome <;> rfl

theorem exists_of_solve {tree : Nesting} {value : Text}
    (solved : (tree.solve context).outcome = .ok value) :
    ∃ t, (tree.flatten context).outcome = .ok t ∧ (solveSegment context t).outcome = .ok value := by
  rw [solve, Traced.outcome_bind] at solved
  exact bind_eq_ok solved

theorem exists_of_flatten_char {c : Char} {open' : c ≠ '('} {close : c ≠ ')'} {rest : Nesting}
    (flat : ((char c open' close rest).flatten context).outcome = .ok u) :
    ∃ v, (rest.flatten context).outcome = .ok v ∧ u = c :: v := by
  rw [flatten, Traced.outcome_bind] at flat
  obtain ⟨v, behind, same⟩ := bind_eq_ok flat
  cases same
  exact ⟨v, behind, rfl⟩

theorem exists_of_flatten_group {inner rest : Nesting}
    (flat : ((group inner rest).flatten context).outcome = .ok u) :
    ∃ t value v, (inner.flatten context).outcome = .ok t ∧
      (solveSegment context t).outcome = .ok value ∧ (rest.flatten context).outcome = .ok v ∧
      u = value ++ v := by
  rw [outcome_flatten_group] at flat
  obtain ⟨value, solved, flat⟩ := bind_eq_ok flat
  obtain ⟨v, behind, same⟩ := bind_eq_ok flat
  obtain ⟨t, before, closed⟩ := exists_of_solve solved
  cases same
  exact ⟨t, value, v, before, closed, behind, rfl⟩

/-- Where a tree is flattened, every group in it has a value. -/
theorem exists_value_inside {tree : Nesting} (flat : (tree.flatten context).outcome = .ok u) :
    ∀ g ∈ tree.inside, ∃ value, (g.solve context).outcome = .ok value := by
  induction tree generalizing u with
  | nil => exact nofun
  | char c _ _ rest ih =>
    obtain ⟨_, behind, -⟩ := exists_of_flatten_char flat
    exact ih behind
  | group inner rest ih ih' =>
    obtain ⟨t, value, v, before, closed, behind, -⟩ := exists_of_flatten_group flat
    intro g member
    rcases List.mem_append.1 member with here | member
    · exact ih before g here
    · rcases List.mem_cons.1 member with rfl | there
      · refine ⟨value, ?_⟩
        rw [solve, Traced.outcome_bind, before]
        exact closed
      · exact ih' behind g there

/-- A group that fails is one whose segment fails, behind groups that do not. -/
structure FirstFailure (context : Context) (e : Failure) (before : List Nesting) (g : Nesting) :
    Prop where
  solved : ∀ g' ∈ before, ∃ value, (g'.solve context).outcome = .ok value
  failed : ∃ u, (g.flatten context).outcome = .ok u ∧ (solveSegment context u).outcome = .error e

/-- Where a tree is not flattened, the reason is the first group in it that fails. -/
theorem exists_failure_inside {tree : Nesting} {e : Failure}
    (failed : (tree.flatten context).outcome = .error e) :
    ∃ before g after, tree.inside = before ++ g :: after ∧ FirstFailure context e before g := by
  induction tree with
  | nil => contradiction
  | char c _ _ rest ih =>
    rw [flatten, Traced.outcome_bind] at failed
    rcases bind_eq_error failed with behind | ⟨v, _, _⟩
    · exact ih behind
    · contradiction
  | group inner rest ih ih' =>
    rw [outcome_flatten_group] at failed
    rcases bind_eq_error failed with here | ⟨value, whole, failed⟩
    · rw [solve, Traced.outcome_bind] at here
      rcases bind_eq_error here with before | ⟨t, flat, closed⟩
      · obtain ⟨before, g, after, shape, first⟩ := ih before
        exact ⟨before, g, after ++ inner :: rest.inside, by simp [inside, shape], first⟩
      · exact ⟨inner.inside, inner, rest.inside, rfl, exists_value_inside flat, t, flat, closed⟩
    · obtain ⟨t, flat, -⟩ := exists_of_solve whole
      have later : (rest.flatten context).outcome = .error e := by
        rcases bind_eq_error failed with behind | ⟨v, _, _⟩
        · exact behind
        · contradiction
      obtain ⟨before, g, after, shape, first, last⟩ := ih' later
      refine ⟨inner.inside ++ inner :: before, g, after, by simp [inside, shape], ?_, last⟩
      intro g' member
      rcases List.mem_append.1 member with here | member
      · exact exists_value_inside flat g' here
      · rcases List.mem_cons.1 member with rfl | there
        · exact ⟨value, whole⟩
        · exact first g' there

/-- Where a tree is flattened, each group in it has been solved once, in their order. -/
theorem segments_flatten {tree : Nesting} (flat : (tree.flatten context).outcome = .ok u) :
    ((tree.flatten context).events.filterMap Event.segment?).map Except.ok =
      tree.inside.map fun g => (g.flatten context).outcome := by
  induction tree generalizing u with
  | nil => rfl
  | char c _ _ rest ih =>
    obtain ⟨v, behind, -⟩ := exists_of_flatten_char flat
    simp only [flatten, inside]
    rw [Traced.events_bind behind]
    simpa using ih behind
  | group inner rest ih ih' =>
    obtain ⟨t, value, v, before, closed, behind, -⟩ := exists_of_flatten_group flat
    simp only [flatten, inside]
    rw [Traced.events_bind before, Traced.events_bind closed, Traced.events_bind behind]
    simp only [List.filterMap_append, List.map_append, List.map_cons, ih before, ih' behind,
      (events_solveSegment context t).1, before, List.map_nil]
    simp

/-- The same with the tree itself, the last one of its groups. -/
theorem segments_solve {tree : Nesting} (solved : (tree.solve context).outcome = .ok u) :
    ((tree.solve context).events.filterMap Event.segment?).map Except.ok =
      tree.groups.map fun g => (g.flatten context).outcome := by
  obtain ⟨t, flat, -⟩ := exists_of_solve solved
  rw [solve, Traced.events_bind flat, List.filterMap_append, List.map_append, segments_flatten flat,
    (events_solveSegment context t).1, groups, List.map_append]
  simp [flat]

theorem exists_failure_groups {tree : Nesting} {e : Failure}
    (failed : (tree.solve context).outcome = .error e) :
    ∃ before g after, tree.groups = before ++ g :: after ∧ FirstFailure context e before g := by
  rw [solve, Traced.outcome_bind] at failed
  rcases bind_eq_error failed with inner | ⟨t, flat, closed⟩
  · obtain ⟨before, g, after, shape, first⟩ := exists_failure_inside inner
    exact ⟨before, g, after ++ [tree], by simp [groups, shape], first⟩
  · exact ⟨tree.inside, tree, [], rfl, exists_value_inside flat, t, flat, closed⟩

theorem outcome_evaluate (tree : Nesting) : (tree.evaluate context).outcome =
    (tree.solve context).outcome.bind fun t => (resolveOperand context t).mapError .fault := by
  simp only [evaluate, Traced.outcome_bind, Traced.outcome_emit, Traced.outcome_ofExcept,
    Traced.outcome_pure]
  cases (tree.solve context).outcome with
  | error e => rfl
  | ok t =>
    simp only [Except.bind]
    cases (resolveOperand context t).mapError Failure.fault <;> rfl

theorem segments_evaluate {tree : Nesting} (solved : (tree.solve context).outcome = .ok u) :
    (tree.evaluate context).events.filterMap Event.segment? =
      (tree.solve context).events.filterMap Event.segment? := by
  have started : Event.segment? .evaluationStarted = none := rfl
  have finished (x : Float) : Event.segment? (.evaluated x) = none := rfl
  rw [evaluate, Traced.events_bind (a := ()) rfl, Traced.events_bind solved]
  cases value : (resolveOperand context u).mapError Failure.fault with
  | error e =>
    rw [Traced.events_bind_error (e := e) rfl]
    simp [Traced.emit, Traced.ofExcept, started]
  | ok x =>
    rw [Traced.events_bind (a := x) rfl, Traced.events_bind (a := ()) rfl]
    simp [Traced.emit, Traced.ofExcept, started, finished]

end Nesting

end Reckoner
