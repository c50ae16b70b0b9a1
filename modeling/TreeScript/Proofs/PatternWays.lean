import Mathlib
import TreeScript.Pattern.Search

/-!
# The ways in which a pattern matches

Matching works off frames and tries one way after the other. What it does is said here without
frames, for plain patterns: those of characters, sets, choices, greedy repetitions of one character
and optional parts. Such a node has a list of ways to match from a position, by where they end and
in the order in which they are tried (`Node.ways`). A run succeeds exactly if, after some way
through its nodes, the frames after them succeed, and it ends where they end after the first such
way (`EndsAs.nodes`). So a plain pattern matches up to the end of its first way
(`IsPlain.matchFrom?`), and it is found in a line if there is a way from some position
(`IsPlain.search`).

What a way that has failed leaves behind does not matter, since plain nodes look at no marks.
-/

namespace TreeScript.Pattern

variable {text : Array Glyph}

/-- What holds of characters and sets holds of all nodes that match one character. -/
@[elab_as_elim]
theorem Node.of_isSingle {P : Node → Prop} {node : Node} (h : node.isSingle = true)
    (literal : ∀ c negated case, P (.literal c negated case)) (any : ∀ lines, P (.any lines))
    (set : ∀ negated items case ascii, P (.set negated items case ascii)) : P node := by
  cases node with
  | literal c negated case => exact literal c negated case
  | any lines => exact any lines
  | set negated items case ascii => exact set negated items case ascii
  | _ => cases h

/-! ## Ways -/

/-- Where greedy repetitions of a one-character node from a position can end. -/
def Node.endsFrom (text : Array Glyph) (one : Node) (least : Nat) (most : Option Nat)
    (position : Nat) : List Nat :=
  let count := one.countFrom text (most.getD text.size) position
  if count < least then [] else downFrom (position + least) (count - least)

mutual

/-- Where the ways end in which a plain node matches from a position. -/
def Node.ways (text : Array Glyph) : Node → Nat → List Nat
  | .branch alternatives, position => waysOfSome text alternatives position
  | .repetition _ least most body, position =>
    match singleOf? body with
    | some one => one.endsFrom text least most position
    | none => waysOf text body position ++ [position]
  | node, position => if node.acceptsAt text position then [position + 1] else []
termination_by structural n => n

/-- Where the ways end in which plain nodes match one after the other. -/
def waysOf (text : Array Glyph) : List Node → Nat → List Nat
  | [], position => [position]
  | node :: rest, position => (node.ways text position).flatMap (waysOf text rest)
termination_by structural ns => ns

/-- Where the ways end in which one of several lists of plain nodes matches. -/
def waysOfSome (text : Array Glyph) : List (List Node) → Nat → List Nat
  | [], _ => []
  | nodes :: rest, position => waysOf text nodes position ++ waysOfSome text rest position
termination_by structural ls => ls

end

mutual

/-- Whether a node is plain. -/
def Node.isPlain : Node → Bool
  | .literal .. | .any _ | .set .. => true
  | .branch alternatives => areAllPlain alternatives
  | .repetition greed least most body =>
    greed == .greedy && ((singleOf? body).isSome || least == 0 && most == some 1 && arePlain body)
  | _ => false
termination_by structural n => n

/-- Whether nodes are plain. -/
def arePlain : List Node → Bool
  | [] => true
  | node :: rest => node.isPlain && arePlain rest
termination_by structural ns => ns

/-- Whether lists of nodes are plain. -/
def areAllPlain : List (List Node) → Bool
  | [] => true
  | nodes :: rest => arePlain nodes && areAllPlain rest
termination_by structural ls => ls

end

mutual

/-- How many frames a plain node makes that are worked off one after the other. -/
def Node.frames : Node → Nat
  | .branch alternatives => framesOfSome alternatives + 2
  | .repetition _ _ _ body => framesOf body + 3
  | _ => 1
termination_by structural n => n

/-- How many frames plain nodes make that are worked off one after the other. -/
def framesOf : List Node → Nat
  | [] => 1
  | node :: rest => node.frames + framesOf rest
termination_by structural ns => ns

/-- How many frames lists of plain nodes make, taken together. -/
def framesOfSome : List (List Node) → Nat
  | [] => 0
  | nodes :: rest => framesOf nodes + framesOfSome rest
termination_by structural ls => ls

end

mutual

/-- How many characters the ways of a plain node have at least. -/
def Node.least : Node → Nat
  | .branch alternatives => leastOfSome alternatives
  | .repetition _ least _ body => if (singleOf? body).isSome then least else 0
  | _ => 1
termination_by structural n => n

/-- How many characters the ways of plain nodes have at least. -/
def leastOf : List Node → Nat
  | [] => 0
  | node :: rest => node.least + leastOf rest
termination_by structural ns => ns

/-- How many characters the ways of lists of plain nodes have at least. -/
def leastOfSome : List (List Node) → Nat
  | [] => 0
  | nodes :: rest => if rest.isEmpty then leastOf nodes else min (leastOf nodes) (leastOfSome rest)
termination_by structural ls => ls

end

/-! ## Characters -/

theorem acceptsAt_eq_false_of_size_le {node : Node} {position : Nat} (h : text.size ≤ position) :
    node.acceptsAt text position = false := by
  rw [Node.acceptsAt, Array.getElem?_eq_none h]

theorem countFrom_le_size (node : Node) (most : Nat) {position : Nat} (h : position ≤ text.size) :
    position + node.countFrom text most position ≤ text.size := by
  induction most generalizing position with
  | zero => simpa [Node.countFrom] using h
  | succ most ih =>
    rw [Node.countFrom]
    split
    · rename_i haccepts
      have hlt : position < text.size := by
        by_contra hge
        rw [acceptsAt_eq_false_of_size_le (by omega)] at haccepts
        cases haccepts
      have : position + 1 + node.countFrom text most (position + 1) ≤ text.size := ih hlt
      omega
    · omega

theorem mem_downFrom {low n p : Nat} : p ∈ downFrom low n ↔ low ≤ p ∧ p ≤ low + n := by
  induction n with
  | zero => simp [downFrom]; omega
  | succ n ih => simp [downFrom, ih]; omega

theorem le_size_of_acceptsAt {node : Node} {position : Nat}
    (h : node.acceptsAt text position = true) : position + 1 ≤ text.size := by
  by_contra hlt
  rw [acceptsAt_eq_false_of_size_le (by omega)] at h
  cases h

theorem bounds_of_mem_endsFrom {one : Node} {least : Nat} {most : Option Nat} {p q : Nat}
    (hp : p ≤ text.size) (h : q ∈ one.endsFrom text least most p) :
    p + least ≤ q ∧ q ≤ text.size := by
  have hcount := countFrom_le_size one (most.getD text.size) hp
  rw [Node.endsFrom] at h
  split at h
  · cases h
  · have := mem_downFrom.1 h
    omega

theorem eq_of_mem_ways_single {node : Node} {p q : Nat}
    (h : q ∈ if node.acceptsAt text p then [p + 1] else []) :
    node.acceptsAt text p = true ∧ q = p + 1 := by
  split at h
  · exact ⟨‹_›, List.mem_singleton.1 h⟩
  · cases h

mutual

theorem bounds_of_mem_ways {node : Node} (hnode : node.isPlain = true) {p q : Nat}
    (hp : p ≤ text.size) (h : q ∈ node.ways text p) : p + node.least ≤ q ∧ q ≤ text.size := by
  have hsingle {node : Node} (h : q ∈ if node.acceptsAt text p then [p + 1] else []) :
      p + 1 ≤ q ∧ q ≤ text.size := by
    obtain ⟨haccepts, rfl⟩ := eq_of_mem_ways_single h
    exact ⟨le_rfl, le_size_of_acceptsAt haccepts⟩
  match node with
  | .literal .. => exact hsingle h
  | .any _ => exact hsingle h
  | .set .. => exact hsingle h
  | .branch alternatives => exact bounds_of_mem_waysOfSome hnode hp h
  | .repetition greed least most body =>
    rw [Node.ways] at h
    rw [Node.least]
    split at h
    · rename_i one hone
      rw [hone, Option.isSome_some, if_pos rfl]
      exact bounds_of_mem_endsFrom hp h
    · rename_i hone
      have hbody : arePlain body = true := by simp_all [Node.isPlain]
      rw [hone, Option.isSome_none, if_neg Bool.false_ne_true]
      obtain h | h := List.mem_append.1 h
      · obtain ⟨hleast, hsize⟩ := bounds_of_mem_waysOf hbody hp h
        exact ⟨(Nat.le_add_right p _).trans hleast, hsize⟩
      · obtain rfl := List.mem_singleton.1 h
        exact ⟨le_rfl, hp⟩

/-- No way is shorter than it must be, or longer than the text. -/
theorem bounds_of_mem_waysOf {nodes : List Node} (hnodes : arePlain nodes = true) {p q : Nat}
    (hp : p ≤ text.size) (h : q ∈ waysOf text nodes p) :
    p + leastOf nodes ≤ q ∧ q ≤ text.size := by
  match nodes with
  | [] =>
    obtain rfl := List.mem_singleton.1 h
    exact ⟨le_rfl, hp⟩
  | node :: rest =>
    rw [arePlain, Bool.and_eq_true] at hnodes
    obtain ⟨r, hr, hq⟩ := List.mem_flatMap.1 h
    have hfirst := bounds_of_mem_ways hnodes.1 hp hr
    have hrest := bounds_of_mem_waysOf hnodes.2 hfirst.2 hq
    simp only [leastOf]
    omega

theorem bounds_of_mem_waysOfSome {lists : List (List Node)} (hlists : areAllPlain lists = true)
    {p q : Nat} (hp : p ≤ text.size) (h : q ∈ waysOfSome text lists p) :
    p + leastOfSome lists ≤ q ∧ q ≤ text.size := by
  match lists with
  | [] => cases h
  | nodes :: rest =>
    rw [areAllPlain, Bool.and_eq_true] at hlists
    rw [leastOfSome]
    obtain h | h := List.mem_append.1 h
    · have := bounds_of_mem_waysOf hlists.1 hp h
      split <;> omega
    · have := bounds_of_mem_waysOfSome hlists.2 hp h
      split
      · rename_i hrest
        rw [List.isEmpty_iff.1 hrest] at h
        cases h
      · omega

end

/-! ## Runs -/

/-- Where an attempt ends that succeeds. -/
def endOf? (attempt : Attempt) : Option Nat :=
  if attempt.1 then some attempt.2.position else none

/-- With enough fuel, frames end where it is said for every position of a text, whatever trace there
is. -/
def EndsAs (text : Array Glyph) (frames : List Frame) (rounds : List Round) (least : Nat)
    (ends : Nat → Option Nat) : Prop :=
  ∀ fuel position trace, least ≤ fuel → position ≤ text.size →
    endOf? (run text fuel frames rounds position trace) = ends position

theorem EndsAs.mono {frames : List Frame} {rounds : List Round} {m n : Nat}
    {ends : Nat → Option Nat} (h : EndsAs text frames rounds m ends) (hmn : m ≤ n) :
    EndsAs text frames rounds n ends :=
  fun fuel position trace hfuel hp => h fuel position trace (hmn.trans hfuel) hp

theorem endOf?_tryAll {α : Type} {attempt : α → Trace → Attempt} {undo : Trace → Trace}
    {ends : α → Option Nat} {ways : List α} {trace : Trace}
    (h : ∀ way ∈ ways, ∀ trace, endOf? (attempt way trace) = ends way) :
    endOf? (tryAll attempt undo ways trace) = ways.findSome? ends := by
  induction ways generalizing trace with
  | nil => rfl
  | cons way rest ih =>
    have hway := h way List.mem_cons_self trace
    rw [List.findSome?_cons, ← hway, tryAll]
    obtain ⟨found, left⟩ := attempt way trace
    cases found with
    | true => rfl
    | false => exact ih fun w hw => h w (List.mem_cons_of_mem way hw)

theorem findSome?_filter {α β : Type} {test : α → Bool} {f : α → Option β} {l : List α}
    (h : ∀ a ∈ l, test a = false → f a = none) : (l.filter test).findSome? f = l.findSome? f := by
  rw [← List.head?_filterMap, ← List.head?_filterMap, List.filterMap_filter]
  congr 1
  refine List.filterMap_congr fun a ha => ?_
  split
  · rfl
  · exact (h a ha (Bool.eq_false_iff.2 ‹_›)).symm

theorem findSome?_flatMap {α β γ : Type} {f : α → List β} {g : β → Option γ} {l : List α} :
    (l.flatMap f).findSome? g = l.findSome? fun a => (f a).findSome? g := by
  rw [← List.head?_filterMap, List.filterMap_flatMap, List.head?_flatMap]
  simp only [List.head?_filterMap]

/-- Where a one-character node comes next that does not accept what is at a position, frames fail.
-/
theorem endOf?_run_of_upcoming {one : Node} (hone : one.isSingle = true) {p : Nat}
    (hp : one.acceptsAt text p = false) {fuel : Nat} {frames : List Frame}
    (h : upcoming? frames = some one) {rounds : List Round} {trace : Trace} :
    endOf? (run text fuel frames rounds p trace) = none := by
  induction fuel generalizing frames trace with
  | zero => rfl
  | succ fuel ih =>
    match frames with
    | [] => cases h
    | .mark _ :: _ => cases h
    | .join :: _ => cases h
    | .round .. :: _ => cases h
    | .nodes [] :: rest =>
      have hrest : upcoming? rest = some one := h
      exact ih hrest
    | .nodes (node :: nodes) :: rest =>
      have hfirst (hnode : node.first? = some node) : node = one := by
        simpa [upcoming?, firstOf?, hnode] using h
      match node with
      | .group none body =>
        have hbody : upcoming? (.nodes body :: .nodes nodes :: rest) = some one := by
          rw [upcoming?, firstOf?, Node.first?] at h
          rw [upcoming?]
          cases hbody : firstOf? body with
          | none => simpa [hbody, upcoming?] using h
          | some first => simpa [hbody] using h
        exact ih hbody
      | .literal .. => simp [run, hfirst rfl, hp, endOf?]
      | .any _ => simp [run, hfirst rfl, hp, endOf?]
      | .set .. => simp [run, hfirst rfl, hp, endOf?]
      | .group (some _) _ => cases hfirst rfl ▸ hone
      | .anchor _ => cases hfirst rfl ▸ hone
      | .branch _ => cases hfirst rfl ▸ hone
      | .repetition .. => cases hfirst rfl ▸ hone
      | .atomic _ => cases hfirst rfl ▸ hone
      | .reference .. => cases hfirst rfl ▸ hone
      | .condition .. => cases hfirst rfl ▸ hone
      | .look .. => cases hfirst rfl ▸ hone

theorem exists_of_worthTrying_eq_false {p : Nat} {node? : Option Node}
    (h : worthTrying text p node? = false) :
    ∃ one, node? = some one ∧ one.isSingle = true ∧ one.acceptsAt text p = false := by
  unfold worthTrying at h
  split at h
  · exact ⟨_, rfl, rfl, h⟩
  · exact ⟨_, rfl, rfl, h⟩
  · cases h

section

variable {rounds : List Round} {nodes : List Node} {rest : List Frame} {n : Nat}
  {ends : Nat → Option Nat}

theorem endOf?_run_single {node : Node} (hnode : node.isSingle = true)
    (h : EndsAs text (.nodes nodes :: rest) rounds n ends) {fuel p : Nat} {trace : Trace}
    (hfuel : n + 1 ≤ fuel) :
    endOf? (run text fuel (.nodes (node :: nodes) :: rest) rounds p trace) =
      (if node.acceptsAt text p then [p + 1] else []).findSome? ends := by
  obtain ⟨fuel, rfl⟩ := Nat.exists_eq_add_of_le' (Nat.one_le_of_lt hfuel)
  have hrun : run text (fuel + 1) (.nodes (node :: nodes) :: rest) rounds p trace =
      if node.acceptsAt text p then run text fuel (.nodes nodes :: rest) rounds (p + 1) trace
      else (false, trace) :=
    Node.of_isSingle hnode (fun _ _ _ => rfl) (fun _ => rfl) (fun _ _ _ _ => rfl)
  rw [hrun]
  split
  · rename_i haccepts
    rw [h fuel (p + 1) trace (by omega) (le_size_of_acceptsAt haccepts)]
    simp
  · rfl

/-- A greedy repetition of one character leaves out ends that the next character does not fit; the
frames after it would fail there. -/
theorem endOf?_run_repetition {least : Nat} {most : Option Nat} {body : List Node} {one : Node}
    (hone : singleOf? body = some one) (h : EndsAs text (.nodes nodes :: rest) rounds n ends)
    {fuel p : Nat} {trace : Trace} (hfuel : n + 1 ≤ fuel) (hp : p ≤ text.size) :
    endOf? (run text fuel (.nodes (.repetition .greedy least most body :: nodes) :: rest) rounds p
      trace) = (one.endsFrom text least most p).findSome? ends := by
  obtain ⟨fuel, rfl⟩ := Nat.exists_eq_add_of_le' (Nat.one_le_of_lt hfuel)
  have hcount := countFrom_le_size one (most.getD text.size) hp
  have hends (hleast : ¬one.countFrom text (most.getD text.size) p < least) (q : Nat)
      (hq : q ∈ downFrom (p + least) (one.countFrom text (most.getD text.size) p - least))
      (trace : Trace) :
      endOf? (run text fuel (.nodes nodes :: rest) rounds q (trace.moveTo q)) = ends q := by
    have := mem_downFrom.1 hq
    exact h fuel q _ (by omega) (by omega)
  simp only [run, hone, Node.endsFrom]
  split
  · rw [if_pos (by omega)]
    rfl
  split
  · rfl
  rename_i hleast
  split
  · rename_i c hnext
    rw [endOf?_tryAll fun q hq => hends hleast q (List.mem_of_mem_filter hq)]
    refine findSome?_filter fun q hq hmisfit => ?_
    rw [← hends hleast q hq trace]
    exact endOf?_run_of_upcoming rfl hmisfit hnext
  · exact endOf?_tryAll (hends hleast)

/-- An optional part has a round if it has had none, and what comes after it is next then or if the
round fails. -/
theorem endOf?_run_round {body : List Node} (h : EndsAs text rest rounds n ends)
    {fuel p count : Nat} {last : Option Nat} {trace : Trace} (hfuel : n ≤ fuel)
    (hp : p ≤ text.size) :
    endOf? (run text (fuel + 1) (.round .greedy 0 (some 1) body :: rest) (⟨count, last⟩ :: rounds) p
      trace) =
      (endOf? (if count < 1 && last != some p then
        run text fuel (.nodes body :: .round .greedy 0 (some 1) body :: rest)
          (⟨count + 1, some p⟩ :: rounds) p (trace.moveTo p)
      else (false, trace))).or (ends p) := by
  have hgreedy : (Greed.greedy == Greed.lazy) = false := rfl
  simp only [run, Nat.not_lt_zero, if_false, hgreedy, Bool.false_eq_true, Option.all_some]
  generalize (if (decide (count < 1) && last != some p) = true then _ else (false, trace)) = tried
  obtain ⟨_ | _, left⟩ := tried
  · rw [← h fuel p (Trace.moveTo { left with marks := trace.marks } p) hfuel hp]
    dsimp only
    generalize run text fuel rest rounds p _ = leave
    obtain ⟨_ | _, _⟩ := leave <;> rfl
  · rfl

theorem EndsAs.round {body : List Node} (h : EndsAs text rest rounds n ends) (last : Option Nat) :
    EndsAs text (.round .greedy 0 (some 1) body :: rest) (⟨1, last⟩ :: rounds) (n + 1) ends := by
  intro fuel p trace hfuel hp
  obtain ⟨fuel, rfl⟩ := Nat.exists_eq_add_of_le' (Nat.one_le_of_lt hfuel)
  rw [endOf?_run_round h (by omega) hp]
  rfl

theorem EndsAs.optional {body : List Node} (hbody : singleOf? body = none)
    (h : EndsAs text (.nodes nodes :: rest) rounds n ends)
    (hround : ∀ last, EndsAs text
      (.nodes body :: .round .greedy 0 (some 1) body :: .nodes nodes :: rest) (⟨1, last⟩ :: rounds)
      (n + 1 + framesOf body) fun p => (waysOf text body p).findSome? ends) :
    EndsAs text (.nodes (.repetition .greedy 0 (some 1) body :: nodes) :: rest) rounds
      (n + (framesOf body + 3)) fun p => (waysOf text body p ++ [p]).findSome? ends := by
  intro fuel p trace hfuel hp
  obtain ⟨fuel, rfl⟩ := Nat.exists_eq_add_of_le' (show 2 ≤ fuel by omega)
  have hrun : run text (fuel + 2) (.nodes (.repetition .greedy 0 (some 1) body :: nodes) :: rest)
      rounds p trace = run text (fuel + 1)
        (.round .greedy 0 (some 1) body :: .nodes nodes :: rest) (⟨0, none⟩ :: rounds) p
        (trace.moveTo p) := by
    simp only [run, hbody]
  beta_reduce
  rw [hrun, endOf?_run_round h (by omega) hp, List.findSome?_append, List.findSome?_singleton]
  congr 1
  exact hround (some p) fuel p _ (by omega) hp

theorem EndsAs.join (h : EndsAs text rest rounds n ends) :
    EndsAs text (.join :: rest) rounds (n + 1) ends := by
  intro fuel p trace hfuel hp
  obtain ⟨fuel, rfl⟩ := Nat.exists_eq_add_of_le' (Nat.one_le_of_lt hfuel)
  exact h fuel p trace (by omega) hp

theorem findSome?_waysOfSome (lists : List (List Node)) (p : Nat) :
    (waysOfSome text lists p).findSome? ends =
      lists.findSome? fun nodes => (waysOf text nodes p).findSome? ends := by
  induction lists with
  | nil => rfl
  | cons nodes rest ih =>
    rw [waysOfSome, List.findSome?_append, ih, List.findSome?_cons]
    cases (waysOf text nodes p).findSome? ends <;> rfl

/-- An alternative is left out if its first character does not fit; it would fail. -/
theorem EndsAs.branch {alternatives : List (List Node)}
    (h : ∀ body ∈ alternatives, EndsAs text (.nodes body :: .join :: .nodes nodes :: rest) rounds n
      fun p => (waysOf text body p).findSome? ends) :
    EndsAs text (.nodes (.branch alternatives :: nodes) :: rest) rounds (n + 1) fun p =>
      (waysOfSome text alternatives p).findSome? ends := by
  intro fuel p trace hfuel hp
  obtain ⟨fuel, rfl⟩ := Nat.exists_eq_add_of_le' (Nat.one_le_of_lt hfuel)
  simp only [findSome?_waysOfSome, run]
  refine endOf?_tryAll fun body hbody trace => ?_
  have hends := h body hbody fuel p (trace.moveTo p) (by omega) hp
  split
  · exact hends
  · rename_i hfirst
    obtain ⟨one, hone, hsingle, hmisfit⟩ :=
      exists_of_worthTrying_eq_false (Bool.eq_false_iff.2 hfirst)
    refine Eq.trans ?_ hends
    exact (endOf?_run_of_upcoming hsingle hmisfit (by rw [upcoming?, hone])).symm

end

mutual

/-- What comes after a plain node is tried after each of its ways. -/
theorem EndsAs.node {node : Node} (hnode : node.isPlain = true) {rounds : List Round}
    {nodes : List Node} {rest : List Frame} {n : Nat} {ends : Nat → Option Nat}
    (h : EndsAs text (.nodes nodes :: rest) rounds n ends) :
    EndsAs text (.nodes (node :: nodes) :: rest) rounds (n + node.frames) fun p =>
      (node.ways text p).findSome? ends := by
  match node with
  | .literal .. => exact fun fuel p trace hfuel _ => endOf?_run_single rfl h hfuel
  | .any _ => exact fun fuel p trace hfuel _ => endOf?_run_single rfl h hfuel
  | .set .. => exact fun fuel p trace hfuel _ => endOf?_run_single rfl h hfuel
  | .branch alternatives =>
    have halternatives : areAllPlain alternatives = true := hnode
    have hbranch := EndsAs.branch (EndsAs.alternatives halternatives h.join)
    exact hbranch.mono (by rw [Node.frames]; omega)
  | .repetition greed least most body =>
    have hgreed : greed = .greedy := by
      rw [Node.isPlain, Bool.and_eq_true] at hnode
      exact beq_iff_eq.1 hnode.1
    subst hgreed
    cases hone : singleOf? body with
    | some one =>
      intro fuel p trace hfuel hp
      rw [Node.frames] at hfuel
      simp only [Node.ways, hone]
      exact endOf?_run_repetition hone h (by omega) hp
    | none =>
      have hoptional : (least = 0 ∧ most = some 1) ∧ arePlain body = true := by
        simpa [Node.isPlain, hone] using hnode
      obtain ⟨⟨rfl, rfl⟩, hbody⟩ := hoptional
      simp only [Node.ways, hone]
      exact EndsAs.optional hone h fun last => EndsAs.nodes hbody (h.round last)

/-- What comes after plain nodes is tried after each of their ways. -/
theorem EndsAs.nodes {nodes : List Node} (hnodes : arePlain nodes = true) {rounds : List Round}
    {rest : List Frame} {n : Nat} {ends : Nat → Option Nat} (h : EndsAs text rest rounds n ends) :
    EndsAs text (.nodes nodes :: rest) rounds (n + framesOf nodes) fun p =>
      (waysOf text nodes p).findSome? ends := by
  match nodes with
  | [] =>
    intro fuel p trace hfuel hp
    obtain ⟨fuel, rfl⟩ := Nat.exists_eq_add_of_le' (Nat.one_le_of_lt hfuel)
    simpa [waysOf, run] using h fuel p trace (Nat.le_of_succ_le_succ hfuel) hp
  | node :: nodes =>
    rw [arePlain, Bool.and_eq_true] at hnodes
    have hnode := EndsAs.node hnodes.1 (EndsAs.nodes hnodes.2 h)
    simp only [waysOf, findSome?_flatMap]
    exact hnode.mono (by simp only [framesOf]; omega)

theorem EndsAs.alternatives {lists : List (List Node)} (hlists : areAllPlain lists = true)
    {rounds : List Round} {rest : List Frame} {n : Nat} {ends : Nat → Option Nat}
    (h : EndsAs text rest rounds n ends) :
    ∀ body ∈ lists, EndsAs text (.nodes body :: rest) rounds (n + framesOfSome lists) fun p =>
      (waysOf text body p).findSome? ends := by
  match lists with
  | [] => exact List.forall_mem_nil _
  | nodes :: others =>
    rw [areAllPlain, Bool.and_eq_true] at hlists
    rw [framesOfSome, List.forall_mem_cons]
    constructor
    · exact (EndsAs.nodes hlists.1 h).mono (by omega)
    · exact fun body hbody => (EndsAs.alternatives hlists.2 h body hbody).mono (by omega)

end

theorem endOf?_run_nodes {nodes : List Node} (hnodes : arePlain nodes = true) {fuel p : Nat}
    {trace : Trace} (hfuel : framesOf nodes < fuel) (hp : p ≤ text.size) :
    endOf? (run text fuel [.nodes nodes] [] p trace) = (waysOf text nodes p).head? := by
  have hend : EndsAs text [] [] 1 some := by
    intro fuel p trace hfuel hp
    obtain ⟨fuel, rfl⟩ := Nat.exists_eq_add_of_le' hfuel
    rfl
  rw [EndsAs.nodes hnodes hend fuel p trace (by omega) hp]
  beta_reduce
  rw [← List.head?_filterMap, List.filterMap_some]

/-! ## Marks -/

theorem areAllPlain_iff {lists : List (List Node)} :
    areAllPlain lists = true ↔ ∀ nodes ∈ lists, arePlain nodes = true := by
  induction lists with
  | nil => simp [areAllPlain]
  | cons nodes rest ih => simp [areAllPlain, ih]

/-- Whether a frame sets no marks. -/
def Frame.isPlain : Frame → Bool
  | .nodes body => arePlain body
  | .mark _ => false
  | .join => true
  | .round greed least most body =>
    greed == .greedy && least == 0 && most == some 1 && arePlain body

theorem marks_tryAll {α : Type} {attempt : α → Trace → Attempt} {undo : Trace → Trace}
    (hundo : ∀ trace, trace.marks = #[] → (undo trace).marks = #[]) {ways : List α} {trace : Trace}
    (h : ∀ way ∈ ways, ∀ trace, trace.marks = #[] → (attempt way trace).2.marks = #[])
    (htrace : trace.marks = #[]) : (tryAll attempt undo ways trace).2.marks = #[] := by
  induction ways generalizing trace with
  | nil => exact htrace
  | cons way rest ih =>
    have hway := h way List.mem_cons_self trace htrace
    rw [tryAll]
    generalize attempt way trace = found at hway
    obtain ⟨_ | _, left⟩ := found
    · exact ih (fun w hw => h w (List.mem_cons_of_mem way hw)) (hundo left hway)
    · exact hway

theorem marks_giveUp {inside : Bool} {trace : Trace} (h : trace.marks = #[]) :
    (Trace.giveUp inside #[] trace).marks = #[] := by
  cases inside <;> simp [Trace.giveUp, h]

/-- Plain frames set no marks. -/
theorem marks_run {fuel : Nat} {frames : List Frame} (hframes : ∀ f ∈ frames, f.isPlain = true)
    {rounds : List Round} {p : Nat} {trace : Trace} (htrace : trace.marks = #[]) :
    (run text fuel frames rounds p trace).2.marks = #[] := by
  induction fuel generalizing frames rounds p trace with
  | zero => exact htrace
  | succ fuel ih =>
    match frames with
    | [] => exact htrace
    | frame :: rest =>
    obtain ⟨hframe, hrest⟩ := List.forall_mem_cons.1 hframes
    match frame with
    | .mark _ => cases hframe
    | .join => exact ih hrest htrace
    | .nodes [] => exact ih hrest htrace
    | .round greed least most body =>
      have hround : ∀ f ∈ .nodes body :: .round greed least most body :: rest, f.isPlain = true :=
        List.forall_mem_cons.2 ⟨by simp_all [Frame.isPlain], hframes⟩
      obtain ⟨⟨⟨rfl, rfl⟩, rfl⟩, -⟩ : ((greed = .greedy ∧ least = 0) ∧ most = some 1) ∧ _ := by
        simpa [Frame.isPlain] using hframe
      match rounds with
      | [] => exact htrace
      | ⟨count, last⟩ :: outer =>
        have hgreedy : (Greed.greedy == Greed.lazy) = false := rfl
        have htried (again : Bool) : (if again then
            run text fuel (.nodes body :: .round .greedy 0 (some 1) body :: rest)
              (⟨count + 1, some p⟩ :: outer) p (trace.moveTo p)
          else (false, trace)).2.marks = #[] := by
          cases again with
          | true => exact ih hround htrace
          | false => exact htrace
        simp only [run, Nat.not_lt_zero, if_false, hgreedy, Bool.false_eq_true]
        generalize (Option.all _ _ && last != some p) = again
        specialize htried again
        generalize (if again = true then _ else (false, trace)) = tried at htried ⊢
        obtain ⟨_ | _, left⟩ := tried
        · have hleave : (run text fuel rest outer p
              (Trace.moveTo { left with marks := trace.marks } p)).2.marks = #[] := ih hrest htrace
          dsimp only
          generalize run text fuel rest outer p _ = leave at hleave ⊢
          obtain ⟨_ | _, _⟩ := leave <;> exact hleave
        · exact htried
    | .nodes (node :: nodes) =>
      obtain ⟨hnode, hnodes⟩ : node.isPlain = true ∧ arePlain nodes = true := by
        simpa [Frame.isPlain, arePlain] using hframe
      have hafter : ∀ f ∈ Frame.nodes nodes :: rest, f.isPlain = true :=
        List.forall_mem_cons.2 ⟨hnodes, hrest⟩
      have hsingle (node : Node) : (if node.acceptsAt text p then
          run text fuel (.nodes nodes :: rest) rounds (p + 1) trace
        else (false, trace)).2.marks = #[] := by
        split
        · exact ih hafter htrace
        · exact htrace
      match node with
      | .literal .. => exact hsingle _
      | .any _ => exact hsingle _
      | .set .. => exact hsingle _
      | .branch alternatives =>
        simp only [run, htrace]
        refine marks_tryAll (fun trace => marks_giveUp) (fun body hbody trace htrace => ?_) htrace
        split
        · have hbody : (Frame.nodes body).isPlain = true := areAllPlain_iff.1 hnode body hbody
          have hjoin : ∀ f ∈ .join :: .nodes nodes :: rest, f.isPlain = true :=
            List.forall_mem_cons.2 ⟨rfl, hafter⟩
          exact ih (List.forall_mem_cons.2 ⟨hbody, hjoin⟩) htrace
        · exact htrace
      | .repetition greed least most body =>
        obtain ⟨rfl, hbody⟩ : greed = .greedy ∧ ((singleOf? body).isSome = true ∨
            (least = 0 ∧ most = some 1) ∧ arePlain body = true) := by
          simpa [Node.isPlain] using hnode
        cases hone : singleOf? body with
        | some one =>
          simp only [run, hone, htrace]
          split
          · exact htrace
          split
          · exact htrace
          exact marks_tryAll (fun trace => marks_giveUp) (fun q _ trace htrace => ih hafter htrace)
            htrace
        | none =>
          simp only [run, hone]
          refine ih (List.forall_mem_cons.2 ⟨?_, hafter⟩) htrace
          simpa [Frame.isPlain, hone, and_assoc] using hbody

/-! ## Texts of characters -/

/-- The glyphs of a text. -/
def glyphs (x : List Char) : Array Glyph := (x.map Glyph.ofChar).toArray

/-- Whether a one-character node accepts a character. -/
def Node.fits (node : Node) (c : Char) : Bool := node.accepts (Glyph.ofChar c)

@[simp]
theorem size_glyphs (x : List Char) : (glyphs x).size = x.length := by
  simp [glyphs]

@[simp]
theorem code_ofChar (c : Char) : (Glyph.ofChar c).code = c.toNat := by
  rw [Glyph.ofChar, asciiGlyphs, List.getElem?_toArray, List.getElem?_map]
  cases h : (List.range 128)[c.toNat]? with
  | none => rfl
  | some n =>
    obtain ⟨hlt, hn⟩ := List.getElem?_eq_some_iff.1 h
    rw [← hn, List.getElem_range]
    rfl

theorem toNat_beq_toNat (c d : Char) : (c.toNat == d.toNat) = (c == d) := by
  rw [Bool.eq_iff_iff, beq_iff_eq, beq_iff_eq, Char.toNat_inj]

theorem fits_any (c : Char) : (Node.any false).fits c = (c != '\n') := by
  rw [Node.fits, Node.accepts, code_ofChar, Bool.false_or, bne, bne, ← toNat_beq_toNat]
  rfl

theorem fits_literal (c d : Char) : (Node.literal d.toNat false .exact).fits c = (c == d) := by
  rw [Node.fits, Node.accepts, Case.agrees, code_ofChar, toNat_beq_toNat, Bool.bne_false, BEq.comm]

theorem acceptsAt_glyphs (node : Node) (x : List Char) (p : Nat) :
    node.acceptsAt (glyphs x) p = (x.drop p).head?.any node.fits := by
  rw [Node.acceptsAt, glyphs, List.getElem?_toArray, List.getElem?_map, List.head?_drop]
  cases x[p]? <;> rfl

theorem countFrom_glyphs (node : Node) (x : List Char) (most p : Nat) :
    node.countFrom (glyphs x) most p = (((x.drop p).take most).takeWhile node.fits).length := by
  induction most generalizing p with
  | zero => simp [Node.countFrom]
  | succ most ih =>
    rw [Node.countFrom, acceptsAt_glyphs, ih]
    cases hdrop : x.drop p with
    | nil => simp
    | cons c rest =>
      have hrest : x.drop (p + 1) = rest := by rw [← List.drop_drop, hdrop]; rfl
      rw [hrest, List.take_succ_cons, List.takeWhile_cons]
      rw [List.head?_cons, Option.any_some]
      cases node.fits c <;> rfl

theorem waysOf_single {node : Node} (hnode : node.isSingle = true) (rest : List Node)
    (x : List Char) (p : Nat) : waysOf (glyphs x) (node :: rest) p =
      if (x.drop p).head?.any node.fits then waysOf (glyphs x) rest (p + 1) else [] := by
  have hways : node.ways (glyphs x) p =
      if node.acceptsAt (glyphs x) p then [p + 1] else [] :=
    Node.of_isSingle hnode (fun _ _ _ => rfl) (fun _ => rfl) (fun _ _ _ _ => rfl)
  rw [waysOf, hways, acceptsAt_glyphs]
  split <;> simp

theorem endsFrom_glyphs (one : Node) (x : List Char) (least p : Nat) :
    one.endsFrom (glyphs x) least none p =
      if ((x.drop p).takeWhile one.fits).length < least then []
      else downFrom (p + least) (((x.drop p).takeWhile one.fits).length - least) := by
  have htake : (x.drop p).take x.length = x.drop p :=
    List.take_of_length_le (by rw [List.length_drop]; omega)
  rw [Node.endsFrom, Option.getD_none, countFrom_glyphs, size_glyphs, htake]

/-! ## Searches -/

mutual

theorem frames_le_weight (size : Nat) (node : Node) : node.frames ≤ node.weight size := by
  match node with
  | .branch alternatives =>
    have := framesOfSome_le_weightLists size alternatives
    rw [Node.frames, Node.weight]
    omega
  | .repetition _ least _ body =>
    have := framesOf_le_weightAll size body
    rw [Node.frames, Node.weight]
    exact (Nat.add_le_add_right this 3).trans (Nat.le_mul_of_pos_right _ (by omega))
  | .literal .. => simp [Node.frames, Node.weight]
  | .any _ => simp [Node.frames, Node.weight]
  | .set .. => simp [Node.frames, Node.weight]
  | .anchor _ => simp [Node.frames, Node.weight]
  | .group .. => simp [Node.frames, Node.weight]
  | .atomic _ => simp [Node.frames, Node.weight]
  | .reference .. => simp [Node.frames, Node.weight]
  | .condition .. => simp [Node.frames, Node.weight]
  | .look .. => simp [Node.frames, Node.weight]

theorem framesOf_le_weightAll (size : Nat) (nodes : List Node) :
    framesOf nodes ≤ weightAll size nodes := by
  match nodes with
  | [] => exact Nat.le_refl 1
  | node :: rest =>
    exact Nat.add_le_add (frames_le_weight size node) (framesOf_le_weightAll size rest)

theorem framesOfSome_le_weightLists (size : Nat) (lists : List (List Node)) :
    framesOfSome lists ≤ weightLists size lists := by
  match lists with
  | [] => exact Nat.zero_le 1
  | nodes :: rest =>
    exact Nat.add_le_add (framesOf_le_weightAll size nodes) (framesOfSome_le_weightLists size rest)

end

/-- A pattern of plain nodes that fuel suffices for, and of which positions are left out for its
least width only. -/
structure IsPlain (pattern : Pattern) : Prop where
  nodes : arePlain pattern.nodes = true
  frames : framesOf pattern.nodes < maxFuel
  first : firstSet? pattern.ascii pattern.nodes = none
  least : pattern.least ≤ leastOf pattern.nodes

/-- Where a match of a pattern from a position ends. -/
def matchFrom? (pattern : Pattern) (text : Array Glyph) (position : Nat) : Option Nat :=
  endOf? (run text (min (weightAll text.size pattern.nodes + 3) maxFuel) [.nodes pattern.nodes] []
    position ⟨position, #[]⟩)

/-- Where the first match of a pattern in a text starts and ends. -/
def firstSpan? (pattern : Pattern) (text : Array Glyph) : Option (Nat × Nat) :=
  (starts pattern text).findSome? fun position =>
    (matchFrom? pattern text position).map (position, ·)

theorem isSome_firstMatch? (pattern : Pattern) (text : Array Glyph) :
    (firstMatch? pattern text).isSome = (firstSpan? pattern text).isSome := by
  rw [firstMatch?, firstSpan?, List.isSome_findSome?, List.isSome_findSome?]
  congr 1
  funext position
  rw [matchFrom?]
  generalize run text _ _ _ _ _ = found
  obtain ⟨_ | _, _⟩ := found <;> rfl

section

variable {pattern : Pattern}

/-- A plain pattern matches up to the end of its first way. -/
theorem IsPlain.matchFrom? (h : pattern.IsPlain) {p : Nat} (hp : p ≤ text.size) :
    matchFrom? pattern text p = (waysOf text pattern.nodes p).head? := by
  have hweight := framesOf_le_weightAll text.size pattern.nodes
  exact endOf?_run_nodes h.nodes (Nat.lt_min.2 ⟨by omega, h.frames⟩) hp

/-- From the positions that are left out a plain pattern does not match. -/
theorem IsPlain.firstSpan? (h : pattern.IsPlain) : firstSpan? pattern text =
    (List.range (text.size + 1)).findSome? fun p =>
      (waysOf text pattern.nodes p).head?.map (p, ·) := by
  have hnone {p : Nat} (hp : p ≤ text.size) (hlate : text.size < p + pattern.least) :
      waysOf text pattern.nodes p = [] := by
    by_contra hne
    obtain ⟨q, hq⟩ := List.exists_mem_of_ne_nil _ hne
    have := h.least
    have := bounds_of_mem_waysOf h.nodes hp hq
    omega
  have hrange (n : Nat) (hn : n ≤ text.size + 1)
      (hnone : ∀ p, n ≤ p → p ≤ text.size → waysOf text pattern.nodes p = []) :
      ((List.range n).findSome? fun p => (Pattern.matchFrom? pattern text p).map (p, ·)) =
        (List.range (text.size + 1)).findSome? fun p =>
          (waysOf text pattern.nodes p).head?.map (p, ·) := by
    obtain ⟨m, hm⟩ := Nat.exists_eq_add_of_le hn
    have hbeyond : (((List.range m).map (n + ·)).findSome? fun p =>
        (waysOf text pattern.nodes p).head?.map (p, ·)) = none := by
      simp only [List.findSome?_eq_none_iff, List.mem_map, List.mem_range]
      rintro _ ⟨i, hi, rfl⟩
      rw [hnone _ (by omega) (by omega)]
      rfl
    rw [hm, List.range_add, List.findSome?_append, hbeyond, Option.or_none,
      ← List.head?_filterMap, ← List.head?_filterMap]
    congr 1
    refine List.filterMap_congr fun p hp => ?_
    rw [h.matchFrom? (by have := List.mem_range.1 hp; omega)]
  rw [Pattern.firstSpan?, starts, h.first]
  split
  · exact hrange 0 (by omega) fun p _ hp => hnone hp (by omega)
  split
  · exact hrange _ (by omega) fun p hlt hp => absurd hlt (by omega)
  rename_i hsize hleast
  have hpos : 0 < pattern.least := Nat.pos_of_ne_zero fun hzero => hleast (by simp [hzero])
  split
  · exact hrange _ (by omega) fun p hlt hp => hnone hp (by omega)
  · exact hrange _ (by omega) fun p hlt hp => hnone hp (by omega)

theorem IsPlain.isCrossed_firstMatch? (h : pattern.IsPlain) {trace : Trace}
    (hfirst : firstMatch? pattern text = some trace) : trace.isCrossed = false := by
  obtain ⟨p, -, hp⟩ := List.exists_of_findSome?_eq_some hfirst
  have hframe : ∀ f ∈ [Frame.nodes pattern.nodes], f.isPlain = true :=
    List.forall_mem_singleton.2 h.nodes
  have hrun : (run text (min (weightAll text.size pattern.nodes + 3) maxFuel)
      [.nodes pattern.nodes] [] p ⟨p, #[]⟩).2.marks = #[] := marks_run hframe rfl
  split at hp
  · rename_i found heq
    obtain rfl := Option.some.inj hp
    rw [heq] at hrun
    have hmarks : found.marks = #[] := hrun
    simp [Trace.isCrossed, hmarks]
  · cases hp

/-- A search for a plain pattern succeeds exactly if there is a way from some position. -/
theorem IsPlain.search (h : pattern.IsPlain) (line : String) :
    search pattern line = .ok ((List.range (line.toList.length + 1)).any fun p =>
      (waysOf (glyphs line.toList) pattern.nodes p).head?.isSome) := by
  have hfound := isSome_firstMatch? pattern (glyphs line.toList)
  rw [h.firstSpan?, List.isSome_findSome?, size_glyphs] at hfound
  simp only [Option.isSome_map] at hfound
  have hglyphs : (line.toList.map Glyph.ofChar).toArray = glyphs line.toList := rfl
  rw [Pattern.search, hglyphs, ← hfound]
  cases hfirst : firstMatch? pattern (glyphs line.toList) with
  | none => rfl
  | some trace =>
    simp only [h.isCrossed_firstMatch? hfirst]
    rfl

end

end TreeScript.Pattern
