import Mathlib.Data.List.Basic
import StatContract.Proofs.Code.Value
import StatContract.Proofs.Cost.Acceptance
import StatContract.Proofs.Cost.Rules

/-!
# What the parameters of a model are used for

The parameters of a model are the configuration and the coefficients. Apart from literals and
the names of functions, the expression of a model has no other leaves than coefficients and
entries of the configuration, and it has each of them: a coefficient that is not used, or an
input that no entry stands for, would leave a fit with a free parameter.

`leaves` lists the leaves of an expression in the order of its text. Coefficients are not taken
in that order, since a polynomial repeats its base between coefficients that are taken after it.
So what one part of a cost contributes is said by `Shows`, in which coefficients count as a set,
while entries count one by one against the occurrences of names in the cost (`shown`).
-/

namespace StatContract.CostModel

/-- An entry of the configuration in a model: its number, and whether its size is meant. -/
structure Entry where
  number : Nat
  sized : Bool
  deriving DecidableEq

/-- A leaf of an expression that is neither a literal nor the name of a function. -/
inductive Leaf where
  | variable (name : String)
  | entry (e : Entry)
  /-- A form of expression that no model has. -/
  | foreign
  deriving DecidableEq

section Leaves

/-- The number of the entry that an expression is. -/
def entryNumber? : Code → Option Nat
  | .item (.name container) (.verbatim key) => if container = "Cfg" then numeral? key else none
  | _ => none

/-- The number of the entry whose size a call is. -/
def sizedNumber? (function : String) : List Code → Option Nat
  | [c] => if function = "len" then entryNumber? c else none
  | _ => none

mutual

/-- The leaves of an expression, in the order of its text. -/
def leaves : Code → List Leaf
  | .verbatim _ => []
  | .name n => [.variable n]
  | .paren inner => leaves inner
  | .binary lhs _ rhs => leaves lhs ++ leaves rhs
  | .item container key =>
    match entryNumber? (.item container key) with
    | some i => [.entry ⟨i, false⟩]
    | none => [.foreign]
  | .call (.name function) args =>
    match sizedNumber? function args with
    | some i => [.entry ⟨i, true⟩]
    | none => leavesOfAll args
  | _ => [.foreign]

/-- The leaves of several expressions. -/
def leavesOfAll : List Code → List Leaf
  | [] => []
  | c :: cs => leaves c ++ leavesOfAll cs

end

/-- The entry of the configuration that a leaf is. -/
def Leaf.entry? : Leaf → Option Entry
  | entry e => some e
  | _ => none

/-- The entries of the configuration in an expression, in the order of its text. -/
def entries (c : Code) : List Entry := (leaves c).filterMap Leaf.entry?

theorem entryNumber?_input (i : Nat) : entryNumber? (input i) = some i := by
  rw [input, Code.nat, entryNumber?, if_pos rfl, numeral?_toString]

@[simp] theorem leaves_coefficient (p : Nat) :
    leaves (coefficient p) = [.variable (coefficientName p)] := rfl

@[simp] theorem leaves_nat (n : Nat) : leaves (.nat n) = [] := rfl

@[simp] theorem leaves_input (i : Nat) : leaves (input i) = [.entry ⟨i, false⟩] := by
  have h := entryNumber?_input i
  rw [input] at h ⊢
  rw [leaves, h]

@[simp] theorem leaves_len_input (i : Nat) : leaves (.len (input i)) = [.entry ⟨i, true⟩] := by
  have h : sizedNumber? "len" [input i] = some i := entryNumber?_input i
  rw [Code.len, Code.apply, leaves, h]

theorem leaves_apply {function : String} {args : List Code}
    (h : ∀ c ∈ args, entryNumber? c = none) : leaves (.apply function args) = leavesOfAll args := by
  have hsized : sizedNumber? function args = none := by
    match args with
    | [c] => simp [sizedNumber?, h c (List.mem_singleton_self c)]
    | [] | _ :: _ :: _ => rfl
  rw [Code.apply, leaves, hsized]

theorem leaves_scaled (p : Nat) (quantity : Code) :
    leaves (scaled p quantity) =
      [.variable (coefficientName p)] ++ leaves quantity ++ [.variable (coefficientName (p + 1))] :=
  rfl

theorem leaves_polynomial (quantity : Code) (n p : Nat) :
    leaves (polynomial quantity n p) = .variable (coefficientName p) ::
      (List.range n).flatMap fun k =>
        .variable (coefficientName (p + 1 + k)) :: leaves quantity := by
  have hfold (ks : List Nat) (sum : Code) :
      leaves (ks.foldl (fun sum k => plus sum (times (coefficient (p + 1 + k))
        (.binary quantity (.arith .pow) (.nat (n - k))))) sum) =
      leaves sum ++ ks.flatMap fun k =>
        .variable (coefficientName (p + 1 + k)) :: leaves quantity := by
    induction ks generalizing sum with
    | nil => simp
    | cons k ks ih =>
        rw [List.foldl_cons, ih]
        simp [plus, times, leaves]
  rw [polynomial, leaves, hfold]
  rfl

end Leaves

section Mentions

/-- An occurrence of a name in a cost: the name, and whether it is that of a collection whose
size is meant. -/
structure Mention where
  name : String
  sized : Bool
  deriving DecidableEq

mutual

/-- The occurrences of names in a cost, from left to right, as far as they stand in forms that
models have. -/
def mentions : Term → List Mention
  | .identifier _ name => [⟨name, false⟩]
  | .sizeOf _ (.identifier _ name) => [⟨name, true⟩]
  | .binary _ lhs _ rhs => mentions lhs ++ mentions rhs
  | .call _ _ args => mentionsOfAll args
  | _ => []

/-- The occurrences of names in several costs. -/
def mentionsOfAll : List Term → List Mention
  | [] => []
  | t :: ts => mentions t ++ mentionsOfAll ts

end

mutual

/-- The occurrences of names that a model shows, in its order and as often: those in the base of
a power with a literal exponent appear once for each factor. -/
def shown : Term → List Mention
  | .identifier _ name => [⟨name, false⟩]
  | .sizeOf _ (.identifier _ name) => [⟨name, true⟩]
  | .binary _ lhs op rhs =>
    match if op = .pow then literalExponent? rhs else none with
    | some n => (List.replicate n (shown lhs)).flatten
    | none => shown lhs ++ shown rhs
  | .call _ _ args => shownOfAll args
  | _ => []

/-- The occurrences of names that the models of several costs show. -/
def shownOfAll : List Term → List Mention
  | [] => []
  | t :: ts => shown t ++ shownOfAll ts

end

theorem shown_power {note : Note} {lhs rhs : Term} {n : Nat}
    (h : literalExponent? rhs = some n) :
    shown (.binary note lhs .pow rhs) = (List.replicate n (shown lhs)).flatten := by
  simp [shown, h]

theorem shown_operation {note : Note} {lhs rhs : Term} {op : ArithOp}
    (h : op = .pow → literalExponent? rhs = none) :
    shown (.binary note lhs op rhs) = shown lhs ++ shown rhs := by
  by_cases hop : op = .pow <;> simp [shown, hop, h]

mutual

theorem shown_subset_mentions (t : Term) : shown t ⊆ mentions t := by
  match t with
  | .identifier _ _ => exact List.Subset.refl _
  | .sizeOf _ collection => cases collection <;> simp [shown, mentions]
  | .binary note lhs op rhs =>
      have hlhs := shown_subset_mentions lhs
      have hrhs := shown_subset_mentions rhs
      intro q hq
      rw [shown] at hq
      rw [mentions, List.mem_append]
      split at hq
      · simp only [List.mem_flatten, List.mem_replicate] at hq
        obtain ⟨_, ⟨-, rfl⟩, hq⟩ := hq
        exact .inl (hlhs hq)
      · exact (List.mem_append.1 hq).imp (fun h => hlhs h) fun h => hrhs h
  | .call _ _ args =>
      rw [shown, mentions]
      exact shownOfAll_subset_mentionsOfAll args
  | .constant _ _ | .probability _ _ _ | .probabilityOverItems _ _ _ | .expectation _ _ _
  | .expectationOverItems _ _ _ | .lookup _ _ _ | .tuple _ _ => simp [shown]

theorem shownOfAll_subset_mentionsOfAll (ts : List Term) : shownOfAll ts ⊆ mentionsOfAll ts := by
  match ts with
  | [] => exact List.Subset.refl _
  | t :: ts =>
      rw [shownOfAll, mentionsOfAll]
      exact List.append_subset.2
        ⟨List.subset_append_of_subset_left _ (shown_subset_mentions t),
          List.subset_append_of_subset_right _ (shownOfAll_subset_mentionsOfAll ts)⟩

end

end Mentions

section FirstUses

variable {α β : Type} [DecidableEq α] [DecidableEq β]

theorem eraseDups_append_of_subset {as bs : List α} (h : bs ⊆ as) :
    (as ++ bs).eraseDups = as.eraseDups := by
  have hnone : bs.removeAll as = [] := by
    simpa [List.removeAll] using fun a ha => h ha
  rw [List.eraseDups_append, hnone, List.eraseDups_nil, List.append_nil]

theorem eraseDups_append_singleton (as : List α) (a : α) :
    (as ++ [a]).eraseDups = if a ∈ as then as.eraseDups else as.eraseDups ++ [a] := by
  by_cases h : a ∈ as
  · rw [if_pos h, eraseDups_append_of_subset (by simpa using h)]
  · rw [if_neg h, List.eraseDups_append]
    simp [List.removeAll, h, List.eraseDups_cons]

theorem nodup_eraseDups (as : List α) : as.eraseDups.Nodup := by
  match as with
  | [] => simp
  | a :: as =>
      rw [List.eraseDups_cons, List.nodup_cons, List.mem_eraseDups]
      exact ⟨by simp, nodup_eraseDups _⟩
termination_by as.length
decreasing_by exact Nat.lt_succ_of_le (List.length_filter_le _ _)

/-- Where different members have different images, the images are met for the first time in the
order of the members. -/
theorem eraseDups_map {f : α → β} (as : List α) (h : ∀ a ∈ as, ∀ b ∈ as, f a = f b → a = b) :
    (as.map f).eraseDups = as.eraseDups.map f := by
  match as with
  | [] => rfl
  | a :: as =>
      have hfilter : (as.map f).filter (fun y => !y == f a) =
          (as.filter fun b => !b == a).map f := by
        rw [List.filter_map]
        congr 1
        refine List.filter_congr fun b hb => ?_
        have hiff : f b = f a ↔ b = a :=
          ⟨h b (.tail _ hb) a (.head _), fun hab => hab ▸ rfl⟩
        simp [hiff]
      rw [List.map_cons, List.eraseDups_cons, List.eraseDups_cons, List.map_cons, hfilter,
        eraseDups_map]
      intro b hb c hc
      exact h b (.tail _ (List.mem_filter.1 hb).1) c (.tail _ (List.mem_filter.1 hc).1)
termination_by as.length
decreasing_by exact Nat.lt_succ_of_le (List.length_filter_le _ _)

/-- The places of members in the list of first occurrences are met in order. -/
theorem eraseDups_map_idxOf (as : List α) :
    (as.map fun a => as.eraseDups.idxOf a).eraseDups = List.range as.eraseDups.length := by
  have hinjective : ∀ a ∈ as, ∀ b ∈ as, as.eraseDups.idxOf a = as.eraseDups.idxOf b → a = b := by
    intro a ha b hb h
    exact (List.idxOf_inj (List.mem_eraseDups.2 ha)).1 h
  rw [eraseDups_map as hinjective]
  refine List.ext_getElem (by simp) fun i hi _ => ?_
  rw [List.getElem_map, List.getElem_range, (nodup_eraseDups as).idxOf_getElem]

end FirstUses

namespace Usage

theorem enter_reserve (u : Usage) (n : Nat) (name : String) :
    (u.reserve n).enter name = (u.enter name).reserve n := by
  unfold enter reserve
  split <;> rfl

theorem idxOf_of_enter {u : Usage} {name : String} {inputs : List String}
    (h : (u.enter name).inputs <+: inputs) : inputs.idxOf name = u.inputs.idxOf name := by
  unfold enter at h
  split at h
  · next hmem => exact (h.idxOf_eq_of_mem hmem).symm
  · next hmem =>
      have hlast : name ∈ u.inputs ++ [name] := by simp
      rw [← h.idxOf_eq_of_mem hlast, List.idxOf_append_of_notMem hmem, List.idxOf_eq_length hmem]
      simp

end Usage

/-- What a part of a model shows, where the model has used up `u` before and `u'` after: the
coefficients between the two, and the entries that stand for certain occurrences of names. The
inputs are the names in the order of their first occurrences. -/
structure Shows (u : Usage) (qs : List Mention) (ls : List Leaf) (u' : Usage) : Prop where
  le : u.coefficients ≤ u'.coefficients
  names : ∀ n, .variable n ∈ ls ↔
    ∃ i, u.coefficients ≤ i ∧ i < u'.coefficients ∧ n = coefficientName i
  closed : .foreign ∉ ls
  inputs_prefix : u.inputs <+: u'.inputs
  inputs : ∀ ns, u.inputs = ns.eraseDups → u'.inputs = (ns ++ qs.map Mention.name).eraseDups
  entries : ∀ inputs, u'.inputs <+: inputs →
    ls.filterMap Leaf.entry? = qs.map fun q => ⟨inputs.idxOf q.name, q.sized⟩

namespace Shows

variable {u u' u'' : Usage} {qs rs : List Mention} {ls ms : List Leaf} {c : Code}

theorem nil (u : Usage) : Shows u [] [] u where
  le := Nat.le_refl _
  names := by
    intro n
    simp only [List.not_mem_nil, false_iff, not_exists]
    omega
  closed := List.not_mem_nil
  inputs_prefix := List.prefix_rfl
  inputs := by simp
  entries := fun _ _ => rfl

theorem append (h : Shows u qs ls u') (h' : Shows u' rs ms u'') :
    Shows u (qs ++ rs) (ls ++ ms) u'' where
  le := Nat.le_trans h.le h'.le
  names := by
    intro n
    have hle := h.le
    have hle' := h'.le
    rw [List.mem_append, h.names, h'.names]
    constructor
    · rintro (⟨i, hlo, hhi, rfl⟩ | ⟨i, hlo, hhi, rfl⟩) <;> exact ⟨i, by omega, by omega, rfl⟩
    · rintro ⟨i, hlo, hhi, rfl⟩
      by_cases hi : i < u'.coefficients
      · exact .inl ⟨i, hlo, hi, rfl⟩
      · exact .inr ⟨i, Nat.not_lt.1 hi, hhi, rfl⟩
  closed := fun hmem => (List.mem_append.1 hmem).elim h.closed h'.closed
  inputs_prefix := h.inputs_prefix.trans h'.inputs_prefix
  inputs := by
    intro ns hns
    rw [List.map_append, ← List.append_assoc]
    exact h'.inputs _ (h.inputs ns hns)
  entries := by
    intro inputs hinputs
    rw [List.filterMap_append, List.map_append, h.entries inputs (h'.inputs_prefix.trans hinputs),
      h'.entries inputs hinputs]

theorem coefficient (u : Usage) :
    Shows u [] [.variable (coefficientName u.coefficients)] (u.reserve 1) where
  le := Nat.le_add_right _ _
  names := by
    intro n
    rw [List.mem_singleton, Leaf.variable.injEq, Usage.coefficients_reserve]
    constructor
    · rintro rfl
      exact ⟨u.coefficients, by omega, by omega, rfl⟩
    · rintro ⟨i, hlo, hhi, rfl⟩
      rw [show i = u.coefficients by omega]
  closed := by simp
  inputs_prefix := List.prefix_rfl
  inputs := by
    intro ns hns
    rw [List.map_nil, List.append_nil, ← hns]
    rfl
  entries := fun _ _ => rfl

theorem offset (h : Shows u qs ls u') :
    Shows u qs (ls ++ [.variable (coefficientName u'.coefficients)]) (u'.reserve 1) := by
  have happend := h.append (coefficient u')
  rwa [List.append_nil] at happend

theorem entry (u : Usage) (q : Mention) :
    Shows u [q] [.entry ⟨u.inputs.idxOf q.name, q.sized⟩] (u.enter q.name) where
  le := Nat.le_of_eq (u.coefficients_enter q.name).symm
  names := by
    intro n
    rw [Usage.coefficients_enter]
    simp only [List.mem_singleton, reduceCtorEq, false_iff, not_exists]
    omega
  closed := by simp
  inputs_prefix := u.prefix_enter q.name
  inputs := by
    intro ns hns
    rw [List.map_singleton, eraseDups_append_singleton, ← hns, Usage.enter, hns]
    simp only [List.mem_eraseDups]
    split <;> simp [hns]
  entries := by
    intro inputs hinputs
    rw [List.map_singleton, Usage.idxOf_of_enter hinputs]
    rfl

/-- A quantity stands between its factor and its offset. -/
theorem scaled (q : Mention) (h : leaves c = [.entry ⟨u.inputs.idxOf q.name, q.sized⟩]) :
    Shows u [q] (leaves (scaled u.coefficients c)) ((u.enter q.name).reserve 2) := by
  have hentry := ((coefficient u).append (entry (u.reserve 1) q)).offset
  rw [Usage.enter_reserve, Usage.coefficients_reserve, Usage.coefficients_enter] at hentry
  rw [leaves_scaled, h]
  exact hentry

/-- A polynomial shows its base once for each power, after coefficients that are taken later. -/
theorem polynomial {n : Nat} (h : Shows u qs (leaves c) u') (hn : 1 ≤ n) :
    Shows u (List.replicate n qs).flatten (leaves (polynomial c n u'.coefficients))
      (u'.reserve (n + 1)) where
  le := Nat.le_trans h.le (Nat.le_add_right _ _)
  names := by
    intro name
    have hle := h.le
    simp only [leaves_polynomial, List.mem_cons, List.mem_flatMap, List.mem_range,
      Leaf.variable.injEq, h.names, Usage.coefficients_reserve]
    constructor
    · rintro (rfl | ⟨k, hk, rfl | ⟨i, hlo, hhi, rfl⟩⟩)
      · exact ⟨u'.coefficients, hle, by omega, rfl⟩
      · exact ⟨u'.coefficients + 1 + k, by omega, by omega, rfl⟩
      · exact ⟨i, hlo, by omega, rfl⟩
    · rintro ⟨i, hlo, hhi, rfl⟩
      -- The base has the coefficients before this one, which is the constant; the powers have the
      -- rest.
      rcases Nat.lt_trichotomy i u'.coefficients with hi | hi | hi
      · exact .inr ⟨0, hn, .inr ⟨i, hlo, hi, rfl⟩⟩
      · exact .inl (hi ▸ rfl)
      · exact .inr ⟨i - u'.coefficients - 1, by omega,
          .inl (congrArg coefficientName (by omega))⟩
  closed := by
    rw [leaves_polynomial]
    simp [h.closed]
  inputs_prefix := h.inputs_prefix
  inputs := by
    intro ns hns
    obtain ⟨k, rfl⟩ : ∃ k, n = k + 1 := ⟨n - 1, by omega⟩
    rw [List.replicate_succ, List.flatten_cons, List.map_append, ← List.append_assoc,
      eraseDups_append_of_subset, ← h.inputs ns hns]
    · rfl
    · intro name hname
      simp only [List.mem_map, List.mem_flatten, List.mem_replicate] at hname
      obtain ⟨q, ⟨_, ⟨-, rfl⟩, hq⟩, rfl⟩ := hname
      exact List.mem_append_right _ (List.mem_map_of_mem hq)
  entries := by
    intro inputs hinputs
    have hbase := h.entries inputs hinputs
    have hterm (k : Nat) : (Leaf.variable (coefficientName k) :: leaves c).filterMap Leaf.entry? =
        (leaves c).filterMap Leaf.entry? := List.filterMap_cons_none rfl
    rw [leaves_polynomial, List.filterMap_cons_none rfl, List.filterMap_flatMap, List.map_flatten,
      List.map_replicate, ← hbase]
    simp only [hterm, List.flatMap_def, List.map_const', List.length_range]

end Shows

section Rules

mutual

/-- No part of a model is a bare entry. -/
theorem Builds.entryNumber?_eq_none {u u' : Usage} {t : Term} {c : Code} (h : Builds u t c u') :
    entryNumber? c = none := by
  match h with
  | .base _ hlhs => exact hlhs.entryNumber?_eq_none
  | .constant | .identifier | .size | .one _ | .power _ _ _ _ | .sum _ _ _ | .product _ _ _
  | .exponential _ _ _ | .call _ => rfl

theorem BuildsAll.entryNumber?_eq_none {u u' : Usage} {ts : List Term} {cs : List Code}
    (h : BuildsAll u ts cs u') : ∀ c ∈ cs, entryNumber? c = none := by
  match h with
  | .nil => exact List.forall_mem_nil _
  | .cons hhead htail =>
      exact List.forall_mem_cons.2 ⟨hhead.entryNumber?_eq_none, htail.entryNumber?_eq_none⟩

end

mutual

/-- A part of a model shows what its part of the cost mentions. -/
theorem Builds.shows {u u' : Usage} {t : Term} {c : Code} (h : Builds u t c u') :
    Shows u (shown t) (leaves c) u' := by
  match h with
  | .constant => exact .nil u
  | @Builds.identifier _ _ name =>
      exact .scaled ⟨name, false⟩ (leaves_input _)
  | @Builds.size _ _ _ name =>
      rw [shown]
      exact .scaled ⟨name, true⟩ (leaves_len_input _)
  | .one hexponent =>
      rw [shown_power hexponent]
      exact .nil u
  | .base hexponent hlhs =>
      rw [shown_power hexponent]
      simpa using hlhs.shows
  | .power hexponent hle _ hlhs =>
      rw [shown_power hexponent]
      exact hlhs.shows.polynomial (by omega)
  | .sum hop hlhs hrhs =>
      rw [shown_operation (by rcases hop with rfl | rfl <;> simp)]
      exact hlhs.shows.append hrhs.shows
  | .product hop hlhs hrhs =>
      rw [shown_operation (by rcases hop with rfl | rfl <;> simp)]
      exact (hlhs.shows.append hrhs.shows).offset
  | .exponential hexponent hlhs hrhs =>
      rw [shown_operation fun _ => hexponent]
      exact (hlhs.shows.append hrhs.shows).offset.offset
  | .call hargs =>
      have hoffsets := hargs.shows.offset.offset
      rw [shown]
      rw [← leaves_apply hargs.entryNumber?_eq_none] at hoffsets
      exact hoffsets

theorem BuildsAll.shows {u u' : Usage} {ts : List Term} {cs : List Code}
    (h : BuildsAll u ts cs u') : Shows u (shownOfAll ts) (leavesOfAll cs) u' := by
  match h with
  | .nil => exact .nil u
  | .cons hhead htail =>
      rw [shownOfAll, leavesOfAll]
      exact hhead.shows.append htail.shows

end

/-- A model as a whole shows what its cost mentions. -/
theorem shows_of_synthesize {cost : Term} {m : CostModel} (h : synthesize cost = .ok m) :
    Shows {} (shown cost) (leaves m.body) ⟨m.coefficients, m.inputs⟩ := by
  obtain ⟨note, value, rfl, rfl⟩ | ⟨u, hbuilds, hcoefficients, hinputs⟩ := builds_of_synthesize h
  · exact .coefficient {}
  · rw [hcoefficients, hinputs]
    exact hbuilds.shows

end Rules

/-- The names in a model are exactly its coefficients. Its entries are numbered in the order of
their first use, by all the inputs and nothing else, and the inputs are different names. Each
entry is an occurrence of its input in the cost, and the size is taken where the cost takes it;
all occurrences of one name have the same number. -/
theorem synthesize_uses_parameters {cost : Term} {m : CostModel} (h : synthesize cost = .ok m) :
    .foreign ∉ leaves m.body ∧
    (∀ n, .variable n ∈ leaves m.body ↔ n ∈ (List.range m.coefficients).map coefficientName) ∧
    ((entries m.body).map Entry.number).eraseDups = List.range m.inputs.length ∧
    m.inputs.Nodup ∧
    entries m.body = (shown cost).map (fun q => ⟨m.inputs.idxOf q.name, q.sized⟩) ∧
    ∀ q ∈ shown cost, q ∈ mentions cost ∧ m.inputs[m.inputs.idxOf q.name]? = some q.name := by
  have hshows := shows_of_synthesize h
  have hinputs : m.inputs = ((shown cost).map Mention.name).eraseDups := hshows.inputs [] rfl
  have hentries : entries m.body = (shown cost).map fun q => ⟨m.inputs.idxOf q.name, q.sized⟩ :=
    hshows.entries m.inputs List.prefix_rfl
  refine ⟨hshows.closed, fun n => ?_, ?_, ?_, hentries, fun q hq => ?_⟩
  · rw [hshows.names]
    simp only [Nat.zero_le, true_and, List.mem_map, List.mem_range, eq_comm]
  · have hnumbers := eraseDups_map_idxOf ((shown cost).map Mention.name)
    rw [← hinputs, List.map_map] at hnumbers
    rw [hentries, List.map_map]
    exact hnumbers
  · rw [hinputs]
    exact nodup_eraseDups _
  · have hmem : q.name ∈ m.inputs := by
      rw [hinputs, List.mem_eraseDups]
      exact List.mem_map_of_mem hq
    have hlt := List.idxOf_lt_length_iff.2 hmem
    refine ⟨shown_subset_mentions cost hq, ?_⟩
    rw [List.getElem?_eq_getElem hlt, List.getElem_idxOf]

/-- The cost `f(k) * size_of(L) ** 2 + L`. -/
def growthCost : Term :=
  .binary {} (.binary {} (.call {} "f" [.identifier {} "k"]) .mul
    (.binary {} (.sizeOf {} (.identifier {} "L")) .pow (.constant {} "2"))) .add
    (.identifier {} "L")

theorem synthesize_uses_parameters_growthCost :
    ∃ m, synthesize growthCost = .ok m ∧ m.coefficients = 12 ∧ m.inputs = ["k", "L"] ∧
      entries m.body = [⟨0, false⟩, ⟨1, true⟩, ⟨1, true⟩, ⟨1, false⟩] ∧
      ((entries m.body).map Entry.number).eraseDups = List.range m.inputs.length ∧
      ∀ n, .variable n ∈ leaves m.body ↔ n ∈ (List.range 12).map coefficientName := by
  obtain ⟨-, hnames, hnumbers, -, hentries, -⟩ :=
    @synthesize_uses_parameters growthCost _ rfl
  exact ⟨_, rfl, rfl, rfl, hentries, hnumbers, hnames⟩

end StatContract.CostModel
