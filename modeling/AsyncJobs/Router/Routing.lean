import AsyncJobs.Model.Mux
import Mathlib.Data.List.Sort

/-!
# Routing by the longest registered type

What a router is for: a list of routes, one for each type, and the middleware of all of
them. The map and the slice of the `Mux` both list exactly these routes, the slice with the
longest types first, and every entry holds the chain built for it. Two types of one length
are never both prefixes of a third, so the order the sort leaves open does not matter.
-/

namespace AsyncJobs

structure Route (H : Type) where
  ttype : String
  h : H
  mws : List (Option (Middleware H))

structure Router (H : Type) where
  routes : List (Route H) := []
  mws : List (Option (Middleware H)) := []

namespace Router

variable {H : Type}

def call (r : Router H) : MuxCall H → Router H
  | .use mws => if mws.any (·.isNone) then r else { r with mws := r.mws ++ mws }
  | .handleFunc _ taskType h mws =>
    if mws.any (·.isNone) ∨ taskType ∈ r.routes.map (·.ttype) then r
    else { r with routes := r.routes ++ [⟨taskType, h, mws⟩] }

def calls (r : Router H) (cs : List (MuxCall H)) : Router H := cs.foldl call r

/-- The route with the longest type that is a prefix of the given one. -/
def Longest (r : Router H) (taskType : String) (route : Route H) : Prop :=
  route ∈ r.routes ∧ hasPrefix taskType route.ttype = true ∧
    ∀ other ∈ r.routes, hasPrefix taskType other.ttype = true →
      other.ttype.utf8ByteSize ≤ route.ttype.utf8ByteSize

end Router

section Prefixes

variable {s p q : String}

theorem hasPrefix_iff : hasPrefix s p = true ↔ ∃ rest, s = p ++ rest := by
  unfold hasPrefix
  rw [List.isPrefixOf_iff_prefix]
  constructor
  · rintro ⟨rest, hrest⟩
    refine ⟨String.ofList rest, ?_⟩
    apply String.toList_injective
    rw [String.toList_append, String.toList_ofList, hrest]
  · rintro ⟨rest, rfl⟩
    rw [String.toList_append]
    exact List.prefix_append ..

theorem hasPrefix_self (s : String) : hasPrefix s s = true :=
  hasPrefix_iff.mpr ⟨"", by simp⟩

theorem hasPrefix_size (h : hasPrefix s p = true) : p.utf8ByteSize ≤ s.utf8ByteSize := by
  obtain ⟨rest, rfl⟩ := hasPrefix_iff.mp h
  rw [String.utf8ByteSize_append]
  omega

theorem hasPrefix_unique (hp : hasPrefix s p = true) (hq : hasPrefix s q = true)
    (hsize : p.utf8ByteSize = q.utf8ByteSize) : p = q := by
  have heq : ∀ {a b : String}, a.toList <+: b.toList → a.utf8ByteSize = b.utf8ByteSize → a = b := by
    intro a b hab hsame
    obtain ⟨rest, rfl⟩ := hasPrefix_iff.mp (List.isPrefixOf_iff_prefix.mpr hab)
    rw [String.utf8ByteSize_append] at hsame
    have hempty : rest = "" := String.utf8ByteSize_eq_zero_iff.mp (by omega)
    rw [hempty, String.append_empty]
  have hp' := List.isPrefixOf_iff_prefix.mp hp
  have hq' := List.isPrefixOf_iff_prefix.mp hq
  rcases List.prefix_or_prefix_of_prefix hp' hq' with h | h
  · exact heq h hsize
  · exact (heq h hsize.symm).symm

end Prefixes

def EntryHandler.route {H : Type} (e : EntryHandler H) : Route H := ⟨e.ttype, e.hf, e.mws⟩

namespace Mux

variable {H : Type} {m m' : Mux H} {r : Router H}

/-- The `Mux` lists the routes of the router in its map and in its slice, and each entry
holds the chain built for it. -/
structure Refines (m : Mux H) (r : Router H) : Prop where
  routes : m.entries.map EntryHandler.route = r.routes
  mws : m.mws = r.mws
  listed : m.ehf.Perm (List.range m.entries.length)
  sorted : m.ehf.Pairwise fun a b => typeLength m.entries b ≤ typeLength m.entries a
  mapped : ∀ taskType e, m.hf.lookup taskType = some e ↔
    (m.entries.map (·.ttype))[e]? = some taskType
  built : ∀ entry ∈ m.entries, m.buildChain entry = .ok entry.combined

theorem Refines.new : ({} : Mux H).Refines {} where
  routes := rfl
  mws := rfl
  listed := .refl _
  sorted := .nil
  mapped _ _ := by simp
  built := by simp

/-- The chain of an entry depends on its route and on the middleware of the `Mux`. -/
theorem buildChain_congr {e e' : EntryHandler H} (hmws : m'.mws = m.mws)
    (hroute : e'.route = e.route) : m'.buildChain e' = m.buildChain e := by
  injection hroute with _ hh hchain
  unfold buildChain
  rw [hmws, hh, hchain]

theorem typeLength_congr {entries entries' : List (EntryHandler H)}
    (h : entries'.map EntryHandler.route = entries.map EntryHandler.route) (e : Nat) :
    typeLength entries' e = typeLength entries e := by
  have hget : (entries'[e]?).map EntryHandler.route = (entries[e]?).map EntryHandler.route := by
    rw [← List.getElem?_map, ← List.getElem?_map, h]
  unfold typeLength
  cases hnew : entries'[e]? with
  | none =>
    cases hold : entries[e]? with
    | none => rfl
    | some b =>
      rw [hnew, hold] at hget
      cases hget
  | some a =>
    cases hold : entries[e]? with
    | none =>
      rw [hnew, hold] at hget
      cases hget
    | some b =>
      rw [hnew, hold] at hget
      simp only [Option.map_some, Option.some.injEq] at hget
      injection hget with htype
      simp only [htype]

/-- What the loop of `Use` over the given pointers leaves. -/
structure Rebuilt (m m' : Mux H) (es : List Nat) : Prop where
  hf : m'.hf = m.hf
  ehf : m'.ehf = m.ehf
  mws : m'.mws = m.mws
  routes : m'.entries.map EntryHandler.route = m.entries.map EntryHandler.route
  others : ∀ e, e ∉ es → m'.entries[e]? = m.entries[e]?
  built : ∀ e ∈ es, ∀ entry, m'.entries[e]? = some entry →
    m'.buildChain entry = .ok entry.combined

theorem rebuild_rebuilt {e : Nat} (h : m.rebuild e = .ok m') : Rebuilt m m' [e] := by
  unfold rebuild at h
  split at h
  · rename_i hnone
    cases h
    refine ⟨rfl, rfl, rfl, rfl, fun _ _ => rfl, ?_⟩
    intro e' he' entry hentry
    rw [List.mem_singleton.mp he', hnone] at hentry
    cases hentry
  · rename_i entry hentry
    split at h
    · cases h
    · rename_i combined hbuilt
      cases h
      refine ⟨rfl, rfl, rfl, ?_, ?_, ?_⟩
      · obtain ⟨hlt, hget⟩ := List.getElem?_eq_some_iff.mp hentry
        have hlt' : e < (m.entries.map EntryHandler.route).length := by simpa using hlt
        have hself : EntryHandler.route { entry with combined } =
            (m.entries.map EntryHandler.route)[e] := by
          rw [List.getElem_map, hget]
          rfl
        rw [List.map_set, hself, List.set_getElem_self]
      · intro e' he'
        exact List.getElem?_set_ne (fun heq => he' (List.mem_singleton.mpr heq.symm))
      · intro e' he' entry' hentry'
        rw [List.mem_singleton.mp he', List.getElem?_set_self'] at hentry'
        rw [hentry] at hentry'
        cases hentry'
        exact hbuilt

theorem rebuildAll_rebuilt {es : List Nat} (h : m.rebuildAll es = .ok m') : Rebuilt m m' es := by
  induction es generalizing m with
  | nil =>
    cases h
    exact ⟨rfl, rfl, rfl, rfl, fun _ _ => rfl, by simp⟩
  | cons e es ih =>
    simp only [rebuildAll] at h
    split at h
    · cases h
    · rename_i next hnext
      have hfirst := rebuild_rebuilt hnext
      have hrest := ih h
      refine ⟨hrest.hf.trans hfirst.hf, hrest.ehf.trans hfirst.ehf, hrest.mws.trans hfirst.mws,
        hrest.routes.trans hfirst.routes, ?_, ?_⟩
      · intro e' he'
        obtain ⟨hne, hnot⟩ := not_or.mp (fun hor => he' (List.mem_cons.mpr hor))
        rw [hrest.others e' hnot, hfirst.others e' (by simpa using hne)]
      · intro e' he' entry hentry
        by_cases hlater : e' ∈ es
        · exact hrest.built e' hlater entry hentry
        · -- the entry was rebuilt first and not touched again
          rw [hrest.others e' hlater] at hentry
          have hsame : e' = e := (List.mem_cons.mp he').resolve_right hlater
          rw [buildChain_congr hrest.mws rfl]
          exact hfirst.built e' (by simp [hsame]) entry hentry

theorem ttypes_eq (entries : List (EntryHandler H)) :
    entries.map (·.ttype) = (entries.map EntryHandler.route).map (·.ttype) := by
  rw [List.map_map]
  rfl

/-- Rebuilding all chains takes a `Mux` to the new middleware. -/
theorem Refines.rebuilt (h : m.Refines r) {mws : List (Option (Middleware H))} {m' : Mux H}
    (hm : rebuildAll { m with mws := m.mws ++ mws } (m.hf.entries.map (·.2)) = .ok m') :
    m'.Refines { r with mws := r.mws ++ mws } := by
  have hrebuilt := rebuildAll_rebuilt hm
  have hlength : m'.entries.length = m.entries.length := by
    simpa using congrArg List.length hrebuilt.routes
  refine ⟨hrebuilt.routes.trans h.routes, ?_, ?_, ?_, ?_, ?_⟩
  · rw [hrebuilt.mws, ← h.mws]
  · rw [hrebuilt.ehf, hlength]
    exact h.listed
  · rw [hrebuilt.ehf]
    exact h.sorted.imp fun hle => by
      rw [typeLength_congr hrebuilt.routes, typeLength_congr hrebuilt.routes]
      exact hle
  · intro taskType e
    rw [hrebuilt.hf, ttypes_eq, hrebuilt.routes, ← ttypes_eq]
    exact h.mapped taskType e
  · intro entry hentry
    obtain ⟨e, hget⟩ := List.mem_iff_getElem?.mp hentry
    refine hrebuilt.built e ?_ entry hget
    -- every entry is in the map
    have htype : (m.entries.map (·.ttype))[e]? = some entry.ttype := by
      rw [ttypes_eq, ← hrebuilt.routes, ← ttypes_eq, List.getElem?_map, hget]
      rfl
    have hlookup := (h.mapped entry.ttype e).mpr htype
    exact List.mem_map.mpr ⟨⟨entry.ttype, e⟩, AList.mem_lookup_iff.mp hlookup, rfl⟩

theorem Refines.lookup_eq_none (h : m.Refines r) {taskType : String} :
    m.hf.lookup taskType = none ↔ taskType ∉ r.routes.map (·.ttype) := by
  rw [← h.routes, ← ttypes_eq]
  constructor
  · intro hnone hmem
    obtain ⟨e, he⟩ := List.mem_iff_getElem?.mp hmem
    rw [(h.mapped taskType e).mpr he] at hnone
    cases hnone
  · intro hnot
    cases hlookup : m.hf.lookup taskType with
    | none => rfl
    | some e =>
      exact absurd (List.mem_of_getElem? ((h.mapped taskType e).mp hlookup)) hnot

/-- A type that is not registered yet is put into the map and into the slice. -/
theorem Refines.registered (h : m.Refines r) {sort : SortSlice} (hsort : sort.Sorts)
    {taskType : String} {f combined : H} {mws : List (Option (Middleware H))}
    (hnew : m.hf.lookup taskType = none)
    (hbuilt : m.buildChain ⟨taskType, f, mws, f⟩ = .ok combined) :
    Refines { m with
      entries := m.entries ++ [⟨taskType, f, mws, combined⟩]
      hf := m.hf.insert taskType m.entries.length
      ehf := sort (typeLength (m.entries ++ [⟨taskType, f, mws, combined⟩]))
        (m.ehf ++ [m.entries.length]) }
      { r with routes := r.routes ++ [⟨taskType, f, mws⟩] } := by
  obtain ⟨hperm, hsorted⟩ := hsort (typeLength (m.entries ++ [⟨taskType, f, mws, combined⟩]))
    (m.ehf ++ [m.entries.length])
  refine ⟨?_, h.mws, ?_, hsorted, ?_, ?_⟩
  · rw [List.map_append, h.routes]
    rfl
  · refine hperm.trans ?_
    rw [List.length_append, List.length_singleton, List.range_succ]
    exact h.listed.append_right _
  · intro name e
    rw [List.map_append, List.map_singleton]
    by_cases hname : name = taskType
    · subst hname
      rw [AList.lookup_insert]
      have hold : ∀ e : Nat, (m.entries.map (·.ttype))[e]? ≠ some name := by
        intro e he
        rw [(h.mapped name e).mpr he] at hnew
        cases hnew
      constructor
      · rintro ⟨⟩
        rw [List.getElem?_append_right (by simp)]
        simp
      · intro he
        rcases Nat.lt_or_ge e m.entries.length with hlt | hge
        · rw [List.getElem?_append_left (by simpa using hlt)] at he
          exact absurd he (hold e)
        · have hbound := (List.getElem?_eq_some_iff.mp he).1
          simp only [List.length_append, List.length_map, List.length_singleton] at hbound
          have heq : e = m.entries.length := by omega
          rw [heq]
    · rw [AList.lookup_insert_ne hname, h.mapped name e]
      rcases Nat.lt_or_ge e m.entries.length with hlt | hge
      · rw [List.getElem?_append_left (by simpa using hlt)]
      · rw [List.getElem?_eq_none (by simpa using hge),
          List.getElem?_append_right (by simpa using hge)]
        constructor
        · rintro ⟨⟩
        · intro he
          rw [List.mem_singleton.mp (List.mem_of_getElem? he)] at hname
          exact absurd rfl hname
  · intro entry hentry
    rcases List.mem_append.mp hentry with hentry | hentry
    · exact h.built entry hentry
    · rw [List.mem_singleton.mp hentry]
      exact hbuilt

def Proper : MuxCall H → Prop
  | .use _ => True
  | .handleFunc sort _ _ _ => sort.Sorts

theorem Refines.call (h : m.Refines r) {c : MuxCall H} (hc : Proper c) {err : Option Error}
    (hm : m.call c = .ok (err, m')) : m'.Refines (r.call c) ∧ (err ≠ none → m' = m) := by
  cases c with
  | use mws =>
    simp only [Mux.call, use] at hm
    split_ifs at hm with hnil
    · cases hm
      refine ⟨?_, fun _ => rfl⟩
      rw [Router.call, if_pos hnil]
      exact h
    · split at hm
      · cases hm
      · rename_i next hnext
        cases hm
        refine ⟨?_, fun herr => absurd rfl herr⟩
        rw [Router.call, if_neg hnil]
        exact h.rebuilt hnext
  | handleFunc sort taskType f mws =>
    simp only [Mux.call, handleFunc] at hm
    split_ifs at hm with hnil
    · cases hm
      refine ⟨?_, fun _ => rfl⟩
      rw [Router.call, if_pos (Or.inl hnil)]
      exact h
    · split at hm
      · rename_i e hlookup
        cases hm
        refine ⟨?_, fun _ => rfl⟩
        rw [Router.call, if_pos]
        · exact h
        · refine Or.inr (by_contra fun hnot => ?_)
          rw [h.lookup_eq_none.mpr hnot] at hlookup
          cases hlookup
      · rename_i hnone
        split at hm
        · cases hm
        · rename_i combined hbuilt
          cases hm
          refine ⟨?_, fun herr => absurd rfl herr⟩
          rw [Router.call, if_neg]
          · exact h.registered hc hnone hbuilt
          · rintro (hsome | hmem)
            · exact hnil hsome
            · exact h.lookup_eq_none.mp hnone hmem

theorem Refines.calls {cs : List (MuxCall H)} (h : m.Refines r) (hcs : ∀ c ∈ cs, Proper c)
    (hm : m.calls cs = .ok m') : m'.Refines (r.calls cs) := by
  induction cs generalizing m r with
  | nil =>
    cases hm
    exact h
  | cons c cs ih =>
    simp only [Mux.calls] at hm
    split at hm
    · cases hm
    · rename_i err next hnext
      exact ih (h.call (hcs c (List.mem_cons_self ..)) hnext).1
        (fun c hc => hcs c (List.mem_cons_of_mem _ hc)) hm

/-- The types of the routes are distinct, so the longest one is the only one. -/
theorem Refines.longest_unique (h : m.Refines r) {taskType : String} {a b : Route H}
    (ha : r.Longest taskType a) (hb : r.Longest taskType b) : a = b := by
  have htype : a.ttype = b.ttype :=
    hasPrefix_unique ha.2.1 hb.2.1
      (Nat.le_antisymm (hb.2.2 a ha.1 ha.2.1) (ha.2.2 b hb.1 hb.2.1))
  have hat : ∀ route ∈ r.routes, ∃ i, r.routes[i]? = some route ∧
      m.hf.lookup route.ttype = some i := by
    intro route hroute
    obtain ⟨i, hi⟩ := List.mem_iff_getElem?.mp hroute
    refine ⟨i, hi, (h.mapped _ _).mpr ?_⟩
    rw [ttypes_eq, h.routes, List.getElem?_map, hi]
    rfl
  obtain ⟨i, hi, hlookup⟩ := hat a ha.1
  obtain ⟨j, hj, hlookup'⟩ := hat b hb.1
  rw [htype, hlookup'] at hlookup
  cases hlookup
  rw [hi] at hj
  injection hj

theorem Refines.mem_slice (h : m.Refines r) {entry : EntryHandler H} :
    entry ∈ (m.ehf.filterMap fun e => m.entries[e]?) ↔ entry ∈ m.entries := by
  rw [List.mem_filterMap]
  constructor
  · rintro ⟨e, -, he⟩
    exact List.mem_of_getElem? he
  · intro hmem
    obtain ⟨e, he⟩ := List.mem_iff_getElem?.mp hmem
    refine ⟨e, h.listed.mem_iff.mpr ?_, he⟩
    exact List.mem_range.mpr (List.getElem?_eq_some_iff.mp he).1

theorem Refines.slice_sorted (h : m.Refines r) :
    (m.ehf.filterMap fun e => m.entries[e]?).Pairwise fun a b =>
      b.ttype.utf8ByteSize ≤ a.ttype.utf8ByteSize := by
  refine (List.pairwise_filterMap).mpr (h.sorted.imp ?_)
  intro i j hle a ha b hb
  simpa only [typeLength, ha, hb] using hle

theorem Refines.route_mem (h : m.Refines r) {entry : EntryHandler H} (hmem : entry ∈ m.entries) :
    entry.route ∈ r.routes := by
  rw [← h.routes]
  exact List.mem_map_of_mem hmem

theorem Refines.resolve_longest (h : m.Refines r) {taskType : String} {entry : EntryHandler H}
    (hfound : m.resolve taskType = some entry) :
    entry ∈ m.entries ∧ r.Longest taskType entry.route := by
  unfold resolve at hfound
  split at hfound
  · rename_i e hlookup
    have hmem := List.mem_of_getElem? hfound
    have htype : entry.ttype = taskType := by
      have hmapped := (h.mapped taskType e).mp hlookup
      rw [List.getElem?_map, hfound] at hmapped
      exact Option.some.inj hmapped
    refine ⟨hmem, h.route_mem hmem, ?_, ?_⟩
    · show hasPrefix taskType entry.ttype = true
      rw [htype]
      exact hasPrefix_self taskType
    · intro other _ hother
      show other.ttype.utf8ByteSize ≤ entry.ttype.utf8ByteSize
      rw [htype]
      exact hasPrefix_size hother
  · obtain ⟨hstarts, before, after, hslice, hbefore⟩ := List.find?_eq_some_iff_append.mp hfound
    have hmem : entry ∈ m.entries := by
      rw [← h.mem_slice, hslice]
      simp
    refine ⟨hmem, h.route_mem hmem, hstarts, ?_⟩
    intro other hother hotherPrefix
    rw [← h.routes] at hother
    obtain ⟨entry', hentry', rfl⟩ := List.mem_map.mp hother
    -- no entry before the one found matches, and those after it are not longer
    have hsorted := h.slice_sorted
    have hin := h.mem_slice.mpr hentry'
    rw [hslice] at hsorted hin
    rcases List.mem_append.mp hin with hin | hin
    · have hno := hbefore entry' hin
      rw [show hasPrefix taskType entry'.ttype = true from hotherPrefix] at hno
      cases hno
    · rcases List.mem_cons.mp hin with rfl | hin
      · exact Nat.le_refl _
      · exact (List.pairwise_cons.mp (List.pairwise_append.mp hsorted).2.1).1 entry' hin

theorem Refines.resolve_none (h : m.Refines r) {taskType : String}
    (hnone : m.resolve taskType = none) :
    ∀ route ∈ r.routes, hasPrefix taskType route.ttype = false := by
  intro route hroute
  rw [← h.routes] at hroute
  obtain ⟨entry, hentry, rfl⟩ := List.mem_map.mp hroute
  unfold resolve at hnone
  split at hnone
  · rename_i e hlookup
    have hmapped := (h.mapped taskType e).mp hlookup
    rw [List.getElem?_map, hnone] at hmapped
    cases hmapped
  · have hno := List.find?_eq_none.mp hnone entry (h.mem_slice.mpr hentry)
    exact Bool.eq_false_iff.mpr hno

/-- `Handler` returns the chain of the longest route, or the handler for unknown types. -/
theorem Refines.handler_cases (h : m.Refines r) (notFoundHandler : H) (t : Task) :
    (∃ route chain, r.Longest t.type route ∧ wrap route.mws route.h = .ok chain ∧
      wrap r.mws chain = .ok (m.handler notFoundHandler t)) ∨
    ((∀ route ∈ r.routes, hasPrefix t.type route.ttype = false) ∧
      m.handler notFoundHandler t = notFoundHandler) := by
  unfold handler
  cases hfound : m.resolve t.type with
  | none => exact Or.inr ⟨h.resolve_none hfound, rfl⟩
  | some entry =>
    obtain ⟨hmem, hlongest⟩ := h.resolve_longest hfound
    have hbuilt := h.built entry hmem
    unfold buildChain at hbuilt
    rw [h.mws] at hbuilt
    split at hbuilt
    · cases hbuilt
    · rename_i chain hchain
      exact Or.inl ⟨entry.route, chain, hlongest, hchain, hbuilt⟩

theorem Refines.chain_of_longest (h : m.Refines r) {t : Task} {route : Route H} {chain : H}
    (hlongest : r.Longest t.type route) (hchain : wrap route.mws route.h = .ok chain)
    (notFoundHandler : H) : wrap r.mws chain = .ok (m.handler notFoundHandler t) := by
  rcases h.handler_cases notFoundHandler t with
    ⟨route', chain', hlongest', hchain', hhandler⟩ | ⟨hnone, -⟩
  · rw [h.longest_unique hlongest' hlongest, hchain] at hchain'
    injection hchain' with heq
    rw [heq]
    exact hhandler
  · have hstarts := hlongest.2.1
    rw [hnone route hlongest.1] at hstarts
    cases hstarts

theorem Refines.handler_eq {r' : Router H} (h : m.Refines r) (h' : m'.Refines r')
    (hroutes : r'.routes.Perm r.routes) (hmws : r'.mws = r.mws) (notFoundHandler : H) (t : Task) :
    m'.handler notFoundHandler t = m.handler notFoundHandler t := by
  rcases h.handler_cases notFoundHandler t with
    ⟨route, chain, hlongest, hchain, hhandler⟩ | ⟨hnone, hhandler⟩
  · have hlongest' : r'.Longest t.type route :=
      ⟨hroutes.mem_iff.mpr hlongest.1, hlongest.2.1, fun other hother =>
        hlongest.2.2 other (hroutes.mem_iff.mp hother)⟩
    have hhandler' := h'.chain_of_longest hlongest' hchain notFoundHandler
    rw [hmws, hhandler] at hhandler'
    injection hhandler' with heq
    exact heq.symm
  · rcases h'.handler_cases notFoundHandler t with
      ⟨route, chain, hlongest, -, -⟩ | ⟨-, hhandler'⟩
    · have hstarts := hlongest.2.1
      rw [hnone route (hroutes.mem_iff.mp hlongest.1)] at hstarts
      cases hstarts
    · rw [hhandler, hhandler']

/-- A call of `HandleFunc`, whatever its sort does with types of one length. -/
def Registers : MuxCall H → Prop
  | .use _ => False
  | .handleFunc sort _ _ _ => sort.Sorts

theorem Registers.proper {c : MuxCall H} (h : Registers c) : Proper c := by
  cases c with
  | use mws => trivial
  | handleFunc sort taskType f mws => exact h

theorem registers_mws {cs : List (MuxCall H)} (hcs : ∀ c ∈ cs, Registers c) :
    (r.calls cs).mws = r.mws := by
  induction cs generalizing r with
  | nil => rfl
  | cons c cs ih =>
    have hrest := ih (r := r.call c) fun c hc => hcs c (List.mem_cons_of_mem _ hc)
    have hc := hcs c (List.mem_cons_self ..)
    cases c with
    | use mws => exact absurd hc id
    | handleFunc sort taskType f mws =>
      refine hrest.trans ?_
      simp only [Router.call]
      split_ifs <;> rfl

end Mux

open Mux in
/-- After any registrations a task goes to the route with the longest type that is a prefix
of its own, and to the handler for unknown types if there is none. This depends neither on
the order of the accepted registrations nor on the sort, and a rejected call changes
nothing. -/
theorem routes_to_the_longest_type {H : Type} (notFoundHandler : H) (cs : List (MuxCall H))
    (hcs : ∀ c ∈ cs, Registers c) (m : Mux H) (hm : ({} : Mux H).calls cs = .ok m) :
    (∀ t : Task,
      (∃ route, (({} : Router H).calls cs).Longest t.type route ∧
        (∀ other, (({} : Router H).calls cs).Longest t.type other → other = route) ∧
        wrap route.mws route.h = .ok (m.handler notFoundHandler t)) ∨
      ((∀ route ∈ (({} : Router H).calls cs).routes, hasPrefix t.type route.ttype = false) ∧
        m.handler notFoundHandler t = notFoundHandler)) ∧
    (∀ cs' m', (∀ c ∈ cs', Registers c) → ({} : Mux H).calls cs' = .ok m' →
      (({} : Router H).calls cs').routes.Perm (({} : Router H).calls cs).routes →
        ∀ t, m'.handler notFoundHandler t = m.handler notFoundHandler t) ∧
    ∀ c err m', Registers c → m.call c = .ok (some err, m') →
      ∀ t, m'.handler notFoundHandler t = m.handler notFoundHandler t := by
  have hrefines := Refines.new.calls (fun c hc => (hcs c hc).proper) hm
  refine ⟨?_, ?_, ?_⟩
  · intro t
    rcases hrefines.handler_cases notFoundHandler t with
      ⟨route, chain, hlongest, hchain, hhandler⟩ | hnone
    · rw [registers_mws hcs] at hhandler
      cases hhandler
      exact Or.inl ⟨route, hlongest, fun other hother =>
        hrefines.longest_unique hother hlongest, hchain⟩
    · exact Or.inr hnone
  · intro cs' m' hcs' hm' hperm t
    have hrefines' := Refines.new.calls (fun c hc => (hcs' c hc).proper) hm'
    refine hrefines.handler_eq hrefines' hperm ?_ notFoundHandler t
    rw [registers_mws hcs, registers_mws hcs']
  · intro c err m' hc hcall t
    rw [(hrefines.call hc.proper hcall).2 (by simp)]

def stableSort : SortSlice := fun key l => l.insertionSort fun a b => key b ≤ key a

theorem stableSort_sorts : stableSort.Sorts := by
  intro key l
  have : Std.Total fun a b : Nat => key b ≤ key a := ⟨fun a b => Nat.le_total (key b) (key a)⟩
  have : IsTrans Nat fun a b => key b ≤ key a := ⟨fun _ _ _ hab hbc => Nat.le_trans hbc hab⟩
  exact ⟨List.perm_insertionSort _ l, List.pairwise_insertionSort _ l⟩

/-- Two types, one a prefix of the other, and a duplicate that is rejected. -/
def sampleRoutes : List (MuxCall String) :=
  [.handleFunc stableSort "email" "any" [], .handleFunc stableSort "email:new" "new" [],
    .handleFunc stableSort "email" "again" []]

theorem sampleRoutes_registers : ∀ c ∈ sampleRoutes, Mux.Registers c := by
  intro c hc
  simp only [sampleRoutes, List.mem_cons, List.not_mem_nil, or_false] at hc
  rcases hc with rfl | rfl | rfl <;> exact stableSort_sorts

def typedTask (type : String) : Task :=
  { id := "T1", type, maxTries := 10, state := .new, createdAt := 0 }

theorem routes_to_the_longest_type_sample : ∃ m route,
    ({} : Mux String).calls sampleRoutes = .ok m ∧
    (({} : Router String).calls sampleRoutes).Longest "email:new:de" route ∧
    wrap route.mws route.h = .ok (m.handler "unknown" (typedTask "email:new:de")) ∧
    m.handler "unknown" (typedTask "email:new:de") = "new" := by
  have hrun : (({} : Mux String).calls sampleRoutes).map
      (fun m => m.handler "unknown" (typedTask "email:new:de")) = .ok "new" := by
    decide +kernel
  cases hm : ({} : Mux String).calls sampleRoutes with
  | error f =>
    rw [hm] at hrun
    cases hrun
  | ok m =>
    rw [hm] at hrun
    have hnew : m.handler "unknown" (typedTask "email:new:de") = "new" := Except.ok.inj hrun
    rcases (routes_to_the_longest_type "unknown" sampleRoutes sampleRoutes_registers m hm).1
      (typedTask "email:new:de") with ⟨route, hlongest, -, hchain⟩ | ⟨-, hnone⟩
    · exact ⟨m, route, rfl, hlongest, hchain, hnew⟩
    · rw [hnew] at hnone
      exact absurd hnone (by decide)

end AsyncJobs
