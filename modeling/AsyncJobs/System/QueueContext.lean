import AsyncJobs.System.Covering

/-!
# The context of a thread on a healthy queue

The threads of an undisturbed run rely on more than in general: nobody else makes a
settled item needed again, and nobody else gives them a delivery. Both hold for the
requests of the thread itself as well, so what it found out about its item stays true.
-/

namespace AsyncJobs

open Interaction

/-- A thread gets no delivery beyond the ones it has. -/
def NoMore (n : Nat) (w w' : World) : Prop :=
  ∀ d ∈ w'.deliveries, d.holder = n → d ∈ w.deliveries

variable {q : Queue} {tag : Tag} {w w' : World}

theorem HealthyEffect.noMore {c : Call} {r : c.Reply} (h : HealthyEffect q tag w c r w') {n : Nat}
    (hn : n < w.nextCopy) : NoMore n w w' := by
  intro d hd hholder
  cases h with
  | start t item =>
    obtain ⟨d', hd', rfl⟩ := List.mem_map.mp hd
    split_ifs at hholder ⊢ with hsame
    · simp only at hholder
      omega
    · exact hd'
  | release => exact List.mem_of_mem_filter hd
  | done t err => rwa [World.finish_deliveries] at hd
  | _ => exact hd

/-- The context of a thread when every request succeeds. -/
def queueContext (q : Queue) (tag : Tag) : Context jobs World where
  rely w w' := (contextOf tag).rely w w' ∧ Kept q w w' ∧ NoMore tag.holder w w'
  inv w := w.Inv ∧ QueueInv q w
  permit := QueuePermit q tag
  exec w c r w' := (∃ o, w.exec tag.holder tag.role.writer c o = some (r, w') ∧
      w.succeeds q c o = true ∧ w.keepsAttempts q tag.role c = true) ∧
    QueueInv q w ∧ QueuePermit q tag w c ∧ w'.Inv ∧ tag.holder < w.nextCopy
  later w w' := (contextOf tag).later w w' ∧ Kept q w w' ∧ NoMore tag.holder w w'
  rely_refl w := ⟨(contextOf tag).rely_refl w, .refl q w, fun _ hd _ => hd⟩
  rely_trans := by
    rintro u v w ⟨hrely, hkept, hmore⟩ ⟨hrely', hkept', hmore'⟩
    exact ⟨(contextOf tag).rely_trans hrely hrely', hkept.trans hkept',
      fun d hd hn => hmore d (hmore' d hd hn) hn⟩
  later_trans := by
    rintro u v w ⟨hlater, hkept, hmore⟩ ⟨hlater', hkept', hmore'⟩
    exact ⟨(contextOf tag).later_trans hlater hlater', hkept.trans hkept',
      fun d hd hn => hmore d (hmore' d hd hn) hn⟩
  rely_later := by
    rintro u v ⟨hrely, hrest⟩
    exact ⟨(contextOf tag).rely_later hrely, hrest⟩
  exec_later := by
    rintro u c r v ⟨⟨o, ho, hs, hk⟩, hq, hp, hinv, hn⟩
    have heffect := World.exec_healthy ho hs hk
    exact ⟨(contextOf tag).exec_later ⟨o, ho⟩, heffect.kept hq hinv hp, heffect.noMore hn⟩

theorem queueContext_effect {c : Call} {r : c.Reply} (h : (queueContext q tag).exec w c r w') :
    HealthyEffect q tag w c r w' ∧ QueueInv q w' ∧ w'.Inv := by
  obtain ⟨⟨o, ho, hs, hk⟩, hq, hp, hinv, -⟩ := h
  have heffect := World.exec_healthy ho hs hk
  exact ⟨heffect, hq.effect heffect hp, hinv⟩

theorem request_queue {c : Call} {post : c.Reply → World → Prop}
    (h : ∀ v, (queueContext q tag).rely w v → v.Inv → QueueInv q v →
      QueuePermit q tag v c ∧ ∀ r u, HealthyEffect q tag v c r u → QueueInv q u → u.Inv →
        ∀ x, (queueContext q tag).rely u x → post r x) :
    Holds (queueContext q tag) post (request c) w := by
  intro v hv hi
  obtain ⟨hp, hk⟩ := h v hv hi.1 hi.2
  refine ⟨hp, fun r u hu => ?_⟩
  obtain ⟨heffect, hq, hinv⟩ := queueContext_effect hu
  intro x hx _
  exact hk r u heffect hq hinv x hx

theorem request_free {c : Call} (hc : ∀ v, QueuePermit q tag v c) :
    Holds (queueContext q tag) (fun _ _ => True) (request c) w :=
  request_queue fun v _ _ _ => ⟨hc v, fun _ _ _ _ _ _ _ => trivial⟩

theorem raise_queue {α : Type} {post : α → World → Prop} (message : String) (w : World) :
    Holds (queueContext q tag) post (Client.raise message) w := by
  intro v _ _
  refine ⟨trivial, ?_⟩
  intro r
  exact (r : Empty).elim

section Facts

def Releasable (q : Queue) (tag : Tag) (w : World) : Prop :=
  QueuePermit q tag w .release

variable {id : String} {msg : MsgRef}

theorem Assigned.later (h : Assigned tag id msg w) (hl : (queueContext q tag).later w w') :
    Assigned tag id msg w' := by
  obtain ⟨⟨es, hext⟩, -, hmore⟩ := hl
  refine ⟨?_, fun d hd hn => h.own d (hmore d hd hn) hn⟩
  rw [hext.log]
  exact h.issued.append es

theorem Releasable.later (h : Releasable q tag w) (hl : (queueContext q tag).later w w') :
    Releasable q tag w' := by
  intro d hd hn hmax
  exact (hl.2.1 d.id d.msg.seq).2 (h d (hl.2.2 d hd hn) hn hmax)

theorem Settled.later {seq : Nat} (h : Settled id seq w)
    (hl : (queueContext q tag).later w w') : Settled id seq w' :=
  (hl.2.1 id seq).1 h

theorem Assigned.seq_le (h : Assigned tag id msg w) (hq : QueueInv q w) : msg.seq ≤ w.itemSeq := by
  obtain ⟨n, queue, hpub⟩ := h.issued
  exact hq.issued hpub

theorem Assigned.releasable (h : Assigned tag id msg w) (hq : QueueInv q w)
    (hover : lastItem id w.log ≠ some msg.seq ∨ Pending id w.log ∨
      ∀ m, w.stored id = some m → ¬ m.task.enqueueable) : Releasable q tag w := by
  intro d hd hn hmax
  obtain ⟨rfl, rfl⟩ := h.own d hd hn
  refine ⟨h.seq_le hq, ?_, hover⟩
  intro i hi hseq
  have hcount := (hq.delivered d hd).2.2 i hi hseq
  omega

theorem Assigned.releasable_of_settled (h : Assigned tag id msg w) (hq : QueueInv q w)
    (hs : Settled id msg.seq w) : Releasable q tag w := by
  apply h.releasable hq
  rcases hs.unneeded with hnewer | hpending | hfinal
  · exact Or.inl hnewer
  · exact Or.inr (Or.inl hpending)
  · exact Or.inr (Or.inr fun m hm henq => henq.not_final (hfinal m hm))

/-- While the item of the task has an attempt left, this delivery was not the last one
or its item was replaced. -/
theorem Assigned.releasable_of_attemptsLeft (h : Assigned tag id msg w) (hq : QueueInv q w)
    (hleft : w.attemptsLeft q id = true) : Releasable q tag w := by
  obtain ⟨i, hi, hid, hlast, hlt⟩ := hq.attemptsLeft hleft
  by_cases hseq : i.seq = msg.seq
  · intro d hd hn hmax
    obtain ⟨rfl, rfl⟩ := h.own d hd hn
    have hcount := (hq.delivered d hd).2.2 i hi hseq
    omega
  · refine h.releasable hq (Or.inl ?_)
    rw [hlast]
    intro heq
    injection heq with heq
    exact hseq heq

theorem Assigned.settled (h : Assigned tag id msg w) (hq : QueueInv q w)
    (hfinal : ∀ m, w.stored id = some m → m.task.state.final = true) : Settled id msg.seq w :=
  ⟨h.seq_le hq, Or.inr (Or.inr hfinal)⟩

theorem Assigned.named (h : Assigned tag id msg w) (hw : w.Inv) : World.isWildcard id = false := by
  obtain ⟨n, queue, hpub⟩ := h.issued
  obtain ⟨before, after, hlog⟩ := List.append_of_mem hpub
  have hvalid := hw.valid
  rw [hlog] at hvalid
  obtain ⟨m, hm, hid⟩ := hvalid.at
  have hwritten := known_written hvalid.of_append.tail hm
  rw [← hid]
  refine hw.named m ?_
  rw [hlog]
  obtain ⟨k, writer, old, acked, hmem⟩ := hwritten
  exact ⟨k, writer, old, acked, List.mem_append_right _ (List.mem_cons_of_mem _ hmem)⟩

end Facts

end AsyncJobs
