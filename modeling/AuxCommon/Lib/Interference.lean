import AuxCommon.Lib.Program

/-!
# Programs among other writers

`Prog.Ends p w r w'`: a run of the program that starts at a store `w` may return `r`, with `w'` the
store at the last answer. Between two requests other writers may change the contents in any way. A
read may fail. A commit whose outcome is unknown, or that fails, may apply or not, then or later; if
it does, the store may answer to the same transaction that it is committed (`replayed`).

* `Ends.of_bind`, `Ends.of_attempt`: a run of a sequence is a run of its parts;
* `Transaction.get_apply_of_mem`: what an applied transaction has put is in the store;
* `ends_run`: a program that runs alone is one of its runs.
-/

namespace AuxCommon

open Std List Mutation

section Answers

variable {I K V : Type} [Ord K] [TransOrd K]

/-- The answer to a commit, and the store behind it. A commit without a clear answer may apply, by
when other writers have changed the store again. -/
inductive Transaction.Answered [DecidableEq V] (t : Transaction I K V) (w : World I K V) :
    Except AdapterError CommitOutcome → World I K V → Prop
  | committed : t.holds w.contents = true → t.Answered w (.ok .committed)
      ⟨t.apply w.contents, (t, w.contents) :: w.applied, w.refused⟩
  | replayed {before : OrdMap K V} : (t, before) ∈ w.applied → t.Answered w (.ok .committed) w
  | refused {answer : Except AdapterError CommitOutcome} {refused : List (Transaction I K V)} :
      answer ≠ .ok .committed → t.Answered w answer { w with refused := refused }
  | inDoubt {answer : Except AdapterError CommitOutcome} {before after : OrdMap K V} :
      answer = .ok .unknown ∨ answer = .error .failed → t.holds before = true →
      t.Answered w answer ⟨after, (t, before) :: w.applied, w.refused⟩

/-- Some contents are there now, or were there when a transaction had applied. -/
def World.Reached (w : World I K V) (contents : OrdMap K V) : Prop :=
  contents = w.contents ∨ ∃ e ∈ w.applied, contents = e.1.apply e.2

/-- A store that is not shared gives one of these answers. -/
theorem World.commit_answered [DecidableEq I] [DecidableEq K] [DecidableEq V] (w : World I K V)
    (t : Transaction I K V) : t.Answered w (w.commit t).1 (w.commit t).2 := by
  unfold World.commit
  split
  · rename_i happlied
    obtain ⟨e, he, rfl⟩ := mem_map.mp happlied
    exact .replayed he
  · split
    · exact .refused (by simp)
    · split
      · exact .refused (by simp)
      · split
        · exact .committed ‹_›
        · exact .refused (by simp)

/-- The answers to a read of some keys: each key is told as it is, or fails. -/
def ReadAnswers (s : OrdMap K V) (ks : List K)
    (answers : List (Except AdapterError (Option V))) : Prop :=
  List.Forall₂ (fun k answer => answer = .error .failed ∨ answer = .ok s[k]?) ks answers

/-- The writes to other keys leave a key alone. -/
theorem Mutation.get_foldl_of_notMem [LawfulEqOrd K] [DecidableEq K]
    {mutations : List (Mutation K V)} {k : K} (h : k ∉ mutations.map key)
    (s : OrdMap K V) : (mutations.foldl apply s)[k]? = s[k]? := by
  induction mutations generalizing s with
  | nil => rfl
  | cons m mutations ih =>
    rw [map_cons, mem_cons, not_or] at h
    rw [foldl_cons, ih h.2]
    cases m with
    | put key value => exact (OrdMap.get_insert).trans (if_neg h.1)
    | delete key => exact (OrdMap.get_erase).trans (if_neg h.1)

/-- A transaction with one write for each key leaves what it puts. -/
theorem Transaction.get_apply_of_mem [LawfulEqOrd K] [DecidableEq K] {t : Transaction I K V} {k : K}
    {v : V} (hkeys : (t.mutations.map key).Nodup) (h : .put k v ∈ t.mutations)
    (s : OrdMap K V) : (t.apply s)[k]? = some v := by
  obtain ⟨before, after, hsplit⟩ := append_of_mem h
  rw [hsplit, map_append, map_cons, nodup_append, nodup_cons] at hkeys
  have hafter : k ∉ after.map key := hkeys.2.1.1
  rw [Transaction.apply, hsplit, foldl_append, foldl_cons, get_foldl_of_notMem hafter]
  exact OrdMap.get_insert_self

end Answers

namespace Prog

variable {I K V E α β : Type} [Ord K] [TransOrd K] [DecidableEq V]

/-- A run of the program from the store `w` returns `r`, and the store is `w'` at its last answer. -/
inductive Ends : Prog I K V E α → World I K V → Except E α → World I K V → Prop
  | ret {r : Except E α} {w : World I K V} : Ends (.ret r) w r w
  | read {ks : List K} {next} {w w' : World I K V} {s : OrdMap K V} {answers r} :
    ReadAnswers s ks answers → Ends (next answers) { w with contents := s } r w' →
    Ends (.read ks next) w r w'
  | page {range : Range K} {next} {w w' : World I K V} {s : OrdMap K V} {answer r} :
    Ends (next answer) { w with contents := s } r w' → Ends (.page range next) w r w'
  | commit {t : Transaction I K V} {next} {w left w' : World I K V} {s : OrdMap K V} {answer r} :
    t.Answered { w with contents := s } answer left → Ends (next answer) left r w' →
    Ends (.commit t next) w r w'

namespace Ends

variable {p : Prog I K V E α} {f : α → Prog I K V E β} {w w' : World I K V} {r : Except E β}

theorem of_ret {r r' : Except E α} (h : Ends (.ret r : Prog I K V E α) w r' w') :
    r = r' ∧ w = w' := by
  generalize hp : (.ret r : Prog I K V E α) = p at h
  cases h <;> cases hp
  exact ⟨rfl, rfl⟩

/-- A run of a sequence ends with an error of the first part, or the second part goes on. -/
theorem of_bind (h : Ends (p >>= f) w r w') : (∃ e, r = .error e ∧ Ends p w (.error e) w') ∨
      ∃ a u, Ends p w (.ok a) u ∧ Ends (f a) u r w' := by
  induction p generalizing w with
  | ret result =>
    cases result with
    | ok a => exact .inr ⟨a, w, .ret, h⟩
    | error e =>
      cases h
      exact .inl ⟨e, rfl, .ret⟩
  | read ks next ih =>
    cases h with
    | read hanswers h =>
      rcases ih _ h with ⟨e, hr, he⟩ | ⟨a, u, ha, hf⟩
      · exact .inl ⟨e, hr, .read hanswers he⟩
      · exact .inr ⟨a, u, .read hanswers ha, hf⟩
  | page range next ih =>
    cases h with
    | page h =>
      rcases ih _ h with ⟨e, hr, he⟩ | ⟨a, u, ha, hf⟩
      · exact .inl ⟨e, hr, .page he⟩
      · exact .inr ⟨a, u, .page ha, hf⟩
  | commit t next ih =>
    cases h with
    | commit hanswer h =>
      rcases ih _ h with ⟨e, hr, he⟩ | ⟨a, u, ha, hf⟩
      · exact .inl ⟨e, hr, .commit hanswer he⟩
      · exact .inr ⟨a, u, .commit hanswer ha, hf⟩

/-- A program that keeps its error as a value has the runs of the program. -/
theorem of_attempt {r : Except E (Except E α)} (h : Ends p.attempt w r w') :
    ∃ result, r = .ok result ∧ Ends p w result w' := by
  induction p generalizing w with
  | ret result =>
    cases h
    exact ⟨result, rfl, .ret⟩
  | read ks next ih =>
    cases h with
    | read hanswers h =>
      obtain ⟨result, hr, hp⟩ := ih _ h
      exact ⟨result, hr, .read hanswers hp⟩
  | page range next ih =>
    cases h with
    | page h =>
      obtain ⟨result, hr, hp⟩ := ih _ h
      exact ⟨result, hr, .page hp⟩
  | commit t next ih =>
    cases h with
    | commit hanswer h =>
      obtain ⟨result, hr, hp⟩ := ih _ h
      exact ⟨result, hr, .commit hanswer hp⟩

/-- What comes behind a program that keeps its error goes on with each of its results. -/
theorem of_attempt_bind {g : Except E α → Prog I K V E β}
    (h : Ends (p.attempt >>= g) w r w') : ∃ result u, Ends p w result u ∧ Ends (g result) u r w' := by
  rcases of_bind h with ⟨_, -, herror⟩ | ⟨result, u, hresult, hg⟩
  · obtain ⟨_, hcontra, -⟩ := of_attempt herror
    cases hcontra
  · obtain ⟨_, heq, hp⟩ := of_attempt hresult
    cases heq
    exact ⟨result, u, hp, hg⟩

/-- A sequence that returns a value runs both parts. -/
theorem of_bind_ok {b : β} (h : Ends (p >>= f) w (.ok b) w') :
    ∃ a u, Ends p w (.ok a) u ∧ Ends (f a) u (.ok b) w' :=
  (of_bind h).resolve_left fun ⟨_, he, _⟩ => by cases he

end Ends

theorem ends_run [DecidableEq I] [DecidableEq K] (p : Prog I K V E α) (w : World I K V) :
    Ends p w (p.run w).1 (p.run w).2 := by
  induction p generalizing w with
  | ret r => exact .ret
  | read ks next ih =>
    have hanswers : ReadAnswers w.contents ks (ks.map fun k => .ok w.contents[k]?) :=
      forall₂_map_right_iff.mpr (forall₂_same.mpr fun k _ => .inr rfl)
    exact .read hanswers (ih _ w)
  | page r next ih => exact .page (s := w.contents) (ih _ w)
  | commit t next ih => exact .commit (s := w.contents) (w.commit_answered t) (ih _ _)

end Prog

end AuxCommon
