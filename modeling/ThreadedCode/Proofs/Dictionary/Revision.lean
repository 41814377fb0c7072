import ThreadedCode.Proofs.Dictionary.Authored
import ThreadedCode.Proofs.Dictionary.Numbering

/-!
Revisions of a dictionary: definitions and redefinitions by names, new primitives, forgetting, and
changes of vocabularies. The words in a body are there when it is made, so a body mentions only
tokens that have been given out by then. From then on each of them denotes what it denotes, or
nothing.
-/

namespace ThreadedCode.Dictionary

inductive Revision where
  | author (r : Authoring)
  | primitive (name : Text) (p : Primitive) (doc : Text)

def Revision.apply (d : Dictionary) : Revision → Except Fault Dictionary
  | author r => r.apply d
  | primitive name p doc => (d.definePrimitive name p doc).map (·.2)

def reviseAll (d : Dictionary) (rs : List Revision) : Dictionary :=
  rs.foldl (fun d r => (r.apply d).toOption.getD d) d

theorem reviseAll_append (d : Dictionary) (rs rs' : List Revision) :
    d.reviseAll (rs ++ rs') = (d.reviseAll rs).reviseAll rs' := List.foldl_append

theorem Revision.exists_request {d d' : Dictionary} {r : Revision} (he : r.apply d = .ok d') :
    ∃ q : Request, q.counts ∧ q.apply d = .ok d' ∧
      ∀ i ∈ q.body, ∃ token u, d.findToken? token = some u ∧ i.token = u.token := by
  have bodyless : ∀ i ∈ ([] : List Instruction),
      ∃ token u, d.findToken? token = some u ∧ i.token = u.token := fun i member => by
    cases member
  cases r with
  | author r =>
    cases r with
    | compile name items composite =>
      obtain ⟨⟨w, d''⟩, compiled, rfl⟩ := map_eq_ok.mp he
      obtain ⟨parts, definition, resolved, defined, -, body⟩ := compile_eq_ok compiled
      refine ⟨.define definition, rfl, map_eq_ok.mpr ⟨_, defined, rfl⟩, fun i member => ?_⟩
      change i ∈ definition.body at member
      rw [body] at member
      obtain ⟨part, listed, rfl⟩ := List.mem_map.mp member
      obtain ⟨token, found⟩ := resolve_live resolved part listed
      exact ⟨token, part.1, found, rfl⟩
    | forget name => exact ⟨.forget name, rfl, he, bodyless⟩
    | addVocabulary name => exact ⟨.addVocabulary name, rfl, he, bodyless⟩
    | use name => exact ⟨.use name, rfl, he, bodyless⟩
    | searchIn name => exact ⟨.searchIn name, rfl, he, bodyless⟩
    | defineIn name => exact ⟨.defineIn name, rfl, he, bodyless⟩
  | primitive name p doc => exact ⟨.definePrimitive name p doc, rfl, he, bodyless⟩

structure Grounded (d : Dictionary) : Prop where
  numbered : Numbered d
  mentions : ∀ token w, d.findToken? token = some w → ∀ i ∈ w.body, i.token < d.nextToken

namespace Grounded

variable {d d' : Dictionary} {token : Token} {w : Word}

theorem live (h : Grounded d) (found : d.findToken? token = some w) : w.token = token :=
  (h.numbered.ordered.get?_eq_some.mp found).2

theorem apply {r : Revision} (h : Grounded d) (he : r.apply d = .ok d') :
    Grounded d' ∧ d.Later d' := by
  obtain ⟨q, counts, requested, there⟩ := r.exists_request he
  have ordered := h.numbered.ordered
  have amended := q.apply_amended ordered counts requested
  have later := Later.of_amended amended
  refine ⟨⟨h.numbered.of_amended (ordered.apply q requested) amended, ?_⟩, later⟩
  intro token w found i member
  refine Int.lt_of_lt_of_le ?_ later.next
  cases before : d.findToken? token with
  | none =>
    rw [amended.body_eq found before] at member
    obtain ⟨token, u, listed, same⟩ := there i member
    rw [same, h.live listed]
    exact h.numbered.given token u listed
  | some u =>
    obtain rfl := later.same (h.numbered.given token u before) before found
    exact h.mentions token w before i member

theorem reviseAll (h : Grounded d) (rs : List Revision) :
    Grounded (d.reviseAll rs) ∧ d.Later (d.reviseAll rs) := by
  refine foldl_induction (P := fun d' => Grounded d' ∧ d.Later d') ⟨h, .refl d⟩ ?_ rs
  intro d' r d'' before he
  have step := before.1.apply he
  exact ⟨step.1, before.2.trans step.2⟩

theorem initial : Grounded Dictionary.initial where
  numbered.ordered := Layered.initial.ordered
  numbered.given token w found := by
    obtain ⟨member, same⟩ := Layered.initial.live found
    exact same ▸ (Layered.initial.token w member).2
  mentions token w found i inside := by
    obtain ⟨member, -⟩ := Layered.initial.live found
    exact Int.lt_trans (Layered.initial.below w member i inside) (Layered.initial.token w member).2

end Grounded

theorem Reaches.eq_or_found {d : Dictionary} {w u : Word} (reached : d.Reaches w u) :
    u = w ∨ ∃ token, d.findToken? token = some u := by
  rcases reached.cases_tail with rfl | ⟨_, -, -, i, -, found⟩
  · exact .inl rfl
  · exact .inr ⟨i.token, found⟩

/-- All that the execution of a word may look up is in `d'` as it is in `d`, and has no primitive of
an embedding program. -/
structure AgreesBelow (d d' : Dictionary) (w : Word) : Prop where
  own : ∀ u, d.Reaches w u → u.isForeign = false
  same : ∀ u, d.Reaches w u → u.RunsBody →
    ∀ i ∈ u.body, d'.findToken? i.token = d.findToken? i.token

structure AgreesAt (d d' : Dictionary) (i : Instruction) : Prop where
  token : d'.findToken? i.token = d.findToken? i.token
  word : ∀ w, d.findToken? i.token = some w → AgreesBelow d d' w

theorem AgreesBelow.agreesAt {d d' : Dictionary} {w : Word} {i : Instruction}
    (h : AgreesBelow d d' w) (runs : w.RunsBody) (member : i ∈ w.body) : AgreesAt d d' i where
  token := h.same w .refl runs i member
  word u found :=
    have call : d.Calls w u := ⟨runs, i, member, found⟩
    { own := fun v reached => h.own v (.head call reached)
      same := fun v reached => h.same v (.head call reached) }

theorem Closed.agreesBelow {d d' : Dictionary} {ws : List Word} {w : Word} (closed : d.Closed ws)
    (member : w ∈ ws) (own : ∀ u ∈ ws, u.isForeign = false)
    (same : ∀ u ∈ ws, ∀ i ∈ u.body, d'.findToken? i.token = d.findToken? i.token) :
    AgreesBelow d d' w where
  own u reached := own u (closed.mem_of_reaches member reached)
  same u reached _ := same u (closed.mem_of_reaches member reached)

theorem Grounded.agreesBelow {d d' : Dictionary} {w : Word} (h : Grounded d) (later : d.Later d')
    (body : ∀ i ∈ w.body, i.token < d.nextToken) (own : ∀ u, d.Reaches w u → u.isForeign = false)
    (kept : ∀ u, d.Reaches w u → d.findToken? u.token = some u → d'.findToken? u.token ≠ none) :
    AgreesBelow d d' w where
  own := own
  same u reached runs i member := by
    have given : i.token < d.nextToken := by
      rcases reached.eq_or_found with rfl | ⟨token, found⟩
      · exact body i member
      · exact h.mentions token u found i member
    refine later.findToken?_eq given fun v found => ?_
    have same : v.token = i.token := h.live found
    rw [← same]
    exact kept v (reached.tail ⟨runs, i, member, found⟩) (by rw [same, found])

end ThreadedCode.Dictionary
