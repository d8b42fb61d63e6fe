import AsyncJobs.System.Invariant

/-!
# The context of a thread

Other threads extend the log by events about other copies; the thread itself must
send only permitted requests. What a copy knows is stable under interference, and
what was logged stays logged.
-/

namespace AsyncJobs

open Interaction

def contextOf (tag : Tag) : Context jobs World where
  rely w w' := ∃ es, World.Extends w w' es ∧ ∀ e ∈ es, e.subject ≠ some tag.holder
  inv := World.Inv
  permit w := Permitted tag.holder tag.role.writer w.log
  exec w c r w' := ∃ o, w.exec tag.holder tag.role.writer c o = some (r, w')
  later w w' := ∃ es, World.Extends w w' es
  rely_refl w := ⟨[], ⟨rfl, Int.le_refl _⟩, by simp⟩
  rely_trans := by
    rintro u v w ⟨es, he, hs⟩ ⟨fs, hf, ht⟩
    refine ⟨fs ++ es, ⟨?_, Int.le_trans he.clock hf.clock⟩, ?_⟩
    · rw [hf.log, he.log, List.append_assoc]
    · intro e hmem
      rcases List.mem_append.mp hmem with hmem | hmem
      · exact ht e hmem
      · exact hs e hmem
  later_trans := by
    rintro u v w ⟨es, he⟩ ⟨fs, hf⟩
    exact ⟨fs ++ es, by rw [hf.log, he.log, List.append_assoc], Int.le_trans he.clock hf.clock⟩
  rely_later := by
    rintro u v ⟨es, he, -⟩
    exact ⟨es, he⟩
  exec_later := by
    rintro u c r v ⟨o, h⟩
    obtain ⟨es, he, -⟩ := World.effect_extends (World.exec_effect h)
    exact ⟨es, he⟩

section Transport

variable {tag : Tag} {w v : World}

theorem rely_known (h : (contextOf tag).rely w v) :
    known tag.holder v.log = known tag.holder w.log := by
  obtain ⟨es, he, hs⟩ := h
  rw [he.log, known_append hs]

theorem rely_lookedUp (h : (contextOf tag).rely w v) :
    lookedUp tag.holder v.log = lookedUp tag.holder w.log := by
  obtain ⟨es, he, hs⟩ := h
  rw [he.log, lookedUp_append hs]

theorem later_mem (h : (contextOf tag).later w v) {e : Event} (he : e ∈ w.log) : e ∈ v.log := by
  obtain ⟨es, hext⟩ := h
  rw [hext.log]
  exact List.mem_append_right es he

theorem later_clock (h : (contextOf tag).later w v) : w.clock ≤ v.clock := by
  obtain ⟨es, hext⟩ := h
  exact hext.clock

theorem later_admitted {p : Processor} {n : Nat} {m : StoredTask} {loadedAt : Int}
    (h : (contextOf tag).later w v) (ha : Admitted p n w.log m loadedAt) :
    Admitted p n v.log m loadedAt := by
  obtain ⟨es, hext⟩ := h
  rw [hext.log]
  exact ha.append es

theorem later_eligible {p : Processor} {n : Nat} {m : StoredTask}
    (h : (contextOf tag).later w v) (he : Eligible p n w.log m) : Eligible p n v.log m := by
  obtain ⟨es, hext⟩ := h
  rw [hext.log]
  exact he.append es

theorem later_done {d : String} (h : (contextOf tag).later w v) (hd : DependencyDone w.log d) :
    DependencyDone v.log d := by
  obtain ⟨es, hext⟩ := h
  rw [hext.log]
  exact hd.append es

theorem later_change {writer : Writer} {n : Nat} {base : Option StoredTask} {t : Task}
    (h : (contextOf tag).later w v) (hc : Change writer n w.log base t) :
    Change writer n v.log base t := by
  obtain ⟨es, hext⟩ := h
  rw [hext.log]
  exact hc.append es

end Transport

/-- A request without conditions whose reply does not matter. -/
theorem request_holds {tag : Tag} {c : Call} {post : c.Reply → World → Prop} {w : World}
    (h : ∀ v, (contextOf tag).rely w v → World.Inv v →
      Permitted tag.holder tag.role.writer v.log c ∧
        ∀ o r u, v.exec tag.holder tag.role.writer c o = some (r, u) →
          Holds (contextOf tag) post (.ret r) u) :
    Holds (contextOf tag) post (request c) w := by
  intro v hv hi
  obtain ⟨hp, hk⟩ := h v hv hi
  refine ⟨hp, ?_⟩
  rintro r u ⟨o, ho⟩
  exact hk o r u ho

/-- Requests that every thread may send at any time and that tell its copy nothing. -/
def Call.silent : Call → Bool
  | .publishEvent _ | .ackItem _ | .termItem _ | .nakItem _ _ | .now
  | .runHandler _ | .release => true
  | _ => false

theorem known_silent {n : Nat} {writer : Writer} {w w' : World} {c : Call}
    (hc : c.silent = true) (he : Effect n writer w c w') : known n w'.log = known n w.log := by
  cases he <;> first | rfl | cases hc

theorem known_publishItem {n : Nat} {writer : Writer} {w w' : World} {queue id : String}
    {msgID : Option String} (he : Effect n writer w (.publishItem queue id msgID) w') :
    known n w'.log = known n w.log := by
  cases he <;> rfl

theorem permitted_silent {c : Call} (hc : c.silent = true) (n : Nat) (writer : Writer)
    (log : List Event) : Permitted n writer log c := by
  cases c <;> trivial

theorem request_silent {tag : Tag} {c : Call} {base : Option StoredTask} {w : World}
    (hc : c.silent = true) (hk : known tag.holder w.log = base) :
    Holds (contextOf tag) (fun _ v => known tag.holder v.log = base) (request c) w := by
  refine request_holds fun v hv _ => ⟨permitted_silent hc _ _ _, ?_⟩
  intro o r u ho x hx _
  rw [rely_known hx, known_silent hc (World.exec_effect ho), rely_known hv, hk]

/-- Reading the clock: the value lies between the clocks before and after. -/
theorem readClock_holds {tag : Tag} (w : World) :
    Holds (contextOf tag) (fun now v => w.clock ≤ now ∧ now ≤ v.clock ∧
      known tag.holder v.log = known tag.holder w.log) readClock w := by
  refine request_holds fun v hv _ => ⟨trivial, ?_⟩
  intro o now u h
  cases o <;> cases h
  intro x hx _
  refine ⟨later_clock ((contextOf tag).rely_later hv), later_clock ((contextOf tag).rely_later hx),
    ?_⟩
  rw [rely_known hx, rely_known hv]

namespace World

variable {w w' : World} {n : Nat} {writer : Writer}

theorem execSave_cases {t : Copy} {o : Outcome} {r : Except Error Nat}
    (h : w.execSave n writer t o = some (r, w')) :
    (r = .ok (w.lastSeq + 1) ∧ w' = w.store n writer t true) ∨
      ((∃ e, r = .error e) ∧ known n w'.log = known n w.log) := by
  cases o with
  | ok =>
    simp only [execSave] at h
    split_ifs at h
    · cases h; exact Or.inl ⟨rfl, rfl⟩
    · cases h; exact Or.inr ⟨⟨_, rfl⟩, rfl⟩
  | lost e =>
    simp only [execSave] at h
    split_ifs at h
    · cases h; exact Or.inr ⟨⟨_, rfl⟩, rfl⟩
    · cases h; exact Or.inr ⟨⟨_, rfl⟩, rfl⟩
  | failed e => cases h; exact Or.inr ⟨⟨_, rfl⟩, rfl⟩
  | handled r => cases h

theorem execPublishItem_cases {queue id : String} {msgID : Option String} {o : Outcome}
    {r : Except Error Bool} (h : w.execPublishItem n queue id msgID o = some (r, w')) :
    r = .ok false ∨ Event.unqueued n ∈ w'.log := by
  cases o with
  | ok =>
    simp only [execPublishItem] at h
    split_ifs at h
    · cases h; exact Or.inr (List.mem_cons_self ..)
    · cases h; exact Or.inl rfl
  | lost e =>
    simp only [execPublishItem] at h
    split_ifs at h
    · cases h; exact Or.inr (List.mem_cons_self ..)
    · cases h; exact Or.inr (List.mem_cons_self ..)
  | failed e => cases h; exact Or.inr (List.mem_cons_self ..)
  | handled r => cases h

theorem execRead_cases {use : ReadUse} {id : String} {o : Outcome}
    {r : Except ReadError StoredTask} (h : w.execRead n writer use id o = some (r, w')) :
    (∃ m, r = .ok m ∧ w.readLast id = some m ∧ w' = w.note (.read n writer use m w.clock)) ∨
      ((∃ e, r = .error e) ∧ w' = w) := by
  cases o with
  | ok =>
    simp only [execRead] at h
    split at h
    · cases h; exact Or.inr ⟨⟨_, rfl⟩, rfl⟩
    · rename_i m hm
      cases h; exact Or.inl ⟨m, rfl, hm, rfl⟩
  | failed e => cases h; exact Or.inr ⟨⟨_, rfl⟩, rfl⟩
  | lost e => cases h
  | handled r => cases h

end World

end AsyncJobs
