import AsyncJobs.Router.Routing

/-!
# Middleware

Every handler is wrapped by the middleware of its route and then by that of the `Mux`, in
the order in which they were registered and whichever call came first. A bundle made with
`Chain` stands for the middleware it was made of, unless one of them is nil: `Use` and
`HandleFunc` refuse a nil middleware but do not look into a chain.
-/

namespace AsyncJobs

variable {H : Type}

theorem wrap_append (a b : List (Option (Middleware H))) (next : H) :
    wrap (a ++ b) next =
      match wrap b next with
      | .error f => .error f
      | .ok next => wrap a next := by
  induction a with
  | nil =>
    simp only [List.nil_append, wrap]
    cases wrap b next <;> rfl
  | cons mw a ih =>
    simp only [List.cons_append, wrap, ih]
    cases wrap b next <;> rfl

/-- Middleware arguments and the same arguments with a run of them bundled by `Chain`. -/
inductive Regrouped : List (Option (Middleware H)) → List (Option (Middleware H)) → Prop
  | same (mws : List (Option (Middleware H))) : Regrouped mws mws
  | bundle (before run after : List (Option (Middleware H))) (proper : none ∉ run) :
      Regrouped (before ++ run ++ after) (before ++ some (chain run) :: after)

namespace Regrouped

variable {mws mws' : List (Option (Middleware H))}

theorem wrap_eq (h : Regrouped mws mws') (next : H) : wrap mws' next = wrap mws next := by
  cases h with
  | same => rfl
  | bundle before run after proper =>
    rw [List.append_assoc, wrap_append, wrap_append before, wrap_append run]
    simp only [wrap]
    cases wrap after next <;> rfl

theorem any_isNone (h : Regrouped mws mws') : mws'.any (·.isNone) = mws.any (·.isNone) := by
  cases h with
  | same => rfl
  | bundle before run after proper =>
    have hrun : run.any (·.isNone) = false := by
      rw [List.any_eq_false]
      intro mw hmw hnone
      rw [Option.isNone_iff_eq_none.mp hnone] at hmw
      exact proper hmw
    simp [List.any_append, hrun]

end Regrouped

/-- A call with its middleware arguments regrouped. -/
inductive MuxCall.Regrouped : MuxCall H → MuxCall H → Prop
  | use {mws mws' : List (Option (Middleware H))} (h : AsyncJobs.Regrouped mws mws') :
      MuxCall.Regrouped (.use mws) (.use mws')
  | handleFunc (sort : SortSlice) (taskType : String) (f : H)
      {mws mws' : List (Option (Middleware H))} (h : AsyncJobs.Regrouped mws mws') :
      MuxCall.Regrouped (.handleFunc sort taskType f mws) (.handleFunc sort taskType f mws')

/-- Entries that differ at most in how their middleware is grouped. -/
structure EntryHandler.Same (e e' : EntryHandler H) : Prop where
  ttype : e'.ttype = e.ttype
  combined : e'.combined = e.combined
  inner : wrap e'.mws e'.hf = wrap e.mws e.hf

namespace Mux

structure Same (m m' : Mux H) : Prop where
  entries : List.Forall₂ EntryHandler.Same m.entries m'.entries
  hf : m'.hf = m.hf
  ehf : m'.ehf = m.ehf
  mws : ∀ next, wrap m'.mws next = wrap m.mws next

/-- Outcomes that are both panics, the same one, or both results, related by `R`. -/
inductive SameResult {α : Type} (R : α → α → Prop) : Except Fault α → Except Fault α → Prop
  | ok {a b : α} (h : R a b) : SameResult R (.ok a) (.ok b)
  | error (f : Fault) : SameResult R (.error f) (.error f)

theorem SameResult.elim {α : Type} {R : α → α → Prop} {x y : Except Fault α}
    (h : SameResult R x y) :
    (∃ f, x = .error f ∧ y = .error f) ∨ ∃ a b, x = .ok a ∧ y = .ok b ∧ R a b := by
  cases h with
  | ok hab => exact Or.inr ⟨_, _, rfl, rfl, hab⟩
  | error f => exact Or.inl ⟨f, rfl, rfl⟩

theorem forall₂_set {α : Type} {R : α → α → Prop} {l l' : List α} (h : List.Forall₂ R l l')
    {a b : α} (hab : R a b) (i : Nat) : List.Forall₂ R (l.set i a) (l'.set i b) := by
  induction h generalizing i with
  | nil => exact .nil
  | cons hhead htail ih =>
    cases i with
    | zero => exact .cons hab htail
    | succ i => exact .cons hhead (ih i)

theorem forall₂_getElem? {α : Type} {R : α → α → Prop} {l l' : List α}
    (h : List.Forall₂ R l l') (i : Nat) :
    (l[i]? = none ∧ l'[i]? = none) ∨ ∃ a b, l[i]? = some a ∧ l'[i]? = some b ∧ R a b := by
  induction h generalizing i with
  | nil => exact Or.inl ⟨rfl, rfl⟩
  | cons hhead htail ih =>
    cases i with
    | zero => exact Or.inr ⟨_, _, rfl, rfl, hhead⟩
    | succ i => exact ih i

variable {m m' : Mux H}

theorem Same.buildChain (h : m.Same m') {e e' : EntryHandler H}
    (he : wrap e'.mws e'.hf = wrap e.mws e.hf) : m'.buildChain e' = m.buildChain e := by
  unfold Mux.buildChain
  rw [he]
  cases wrap e.mws e.hf with
  | error f => rfl
  | ok next => exact h.mws next

theorem Same.rebuild (h : m.Same m') (e : Nat) :
    SameResult Same (m.rebuild e) (m'.rebuild e) := by
  unfold Mux.rebuild
  rcases forall₂_getElem? h.entries e with ⟨hm, hm'⟩ | ⟨a, b, hm, hm', hab⟩
  · rw [hm, hm']
    exact .ok h
  · rw [hm, hm']
    simp only [h.buildChain hab.inner]
    cases m.buildChain a with
    | error f => exact .error f
    | ok combined =>
      have hset : EntryHandler.Same { a with combined } { b with combined } :=
        ⟨hab.ttype, rfl, hab.inner⟩
      exact .ok ⟨forall₂_set h.entries hset e, h.hf, h.ehf, h.mws⟩

theorem Same.rebuildAll (h : m.Same m') (es : List Nat) :
    SameResult Same (m.rebuildAll es) (m'.rebuildAll es) := by
  induction es generalizing m m' with
  | nil => exact .ok h
  | cons e es ih =>
    rcases (h.rebuild e).elim with ⟨f, hm, hm'⟩ | ⟨a, b, hm, hm', hab⟩
    · simpa only [Mux.rebuildAll, hm, hm'] using .error f
    · simpa only [Mux.rebuildAll, hm, hm'] using ih hab

theorem typeLength_same {entries entries' : List (EntryHandler H)}
    (h : List.Forall₂ EntryHandler.Same entries entries') :
    typeLength entries' = typeLength entries := by
  funext e
  unfold typeLength
  rcases forall₂_getElem? h e with ⟨hm, hm'⟩ | ⟨a, b, hm, hm', hab⟩
  · rw [hm, hm']
  · simp only [hm, hm', hab.ttype]

theorem Same.use (h : m.Same m') {mws mws' : List (Option (Middleware H))}
    (hmws : Regrouped mws mws') :
    Same { m with mws := m.mws ++ mws } { m' with mws := m'.mws ++ mws' } := by
  refine ⟨h.entries, h.hf, h.ehf, fun next => ?_⟩
  simp only [wrap_append, hmws.wrap_eq]
  cases wrap mws next with
  | error f => rfl
  | ok inner => exact h.mws inner

theorem Same.register (h : m.Same m') (sort : SortSlice) (taskType : String) (f combined : H)
    {mws mws' : List (Option (Middleware H))} (hmws : Regrouped mws mws') :
    Same
      { m with
        entries := m.entries ++ [⟨taskType, f, mws, combined⟩]
        hf := m.hf.insert taskType m.entries.length
        ehf := sort (Mux.typeLength (m.entries ++ [⟨taskType, f, mws, combined⟩]))
          (m.ehf ++ [m.entries.length]) }
      { m' with
        entries := m'.entries ++ [⟨taskType, f, mws', combined⟩]
        hf := m'.hf.insert taskType m'.entries.length
        ehf := sort (Mux.typeLength (m'.entries ++ [⟨taskType, f, mws', combined⟩]))
          (m'.ehf ++ [m'.entries.length]) } := by
  have hentry : EntryHandler.Same ⟨taskType, f, mws, combined⟩ ⟨taskType, f, mws', combined⟩ :=
    ⟨rfl, rfl, hmws.wrap_eq f⟩
  have hentries := List.rel_append h.entries (.cons hentry .nil)
  have hlength : m'.entries.length = m.entries.length := h.entries.length_eq.symm
  refine ⟨hentries, ?_, ?_, h.mws⟩
  · rw [h.hf, hlength]
  · simp only [typeLength_same hentries, h.ehf, hlength]

theorem Same.call (h : m.Same m') {c c' : MuxCall H} (hc : c.Regrouped c') :
    SameResult (fun r r' => r'.1 = r.1 ∧ r.2.Same r'.2) (m.call c) (m'.call c') := by
  cases hc with
  | use hmws =>
    have hpointers : m'.hf.entries.map (·.2) = m.hf.entries.map (·.2) := by rw [h.hf]
    simp only [Mux.call, Mux.use, hmws.any_isNone, hpointers]
    split_ifs with hnil
    · exact .ok ⟨rfl, h⟩
    · rcases ((h.use hmws).rebuildAll (m.hf.entries.map (·.2))).elim with
        ⟨f, hm, hm'⟩ | ⟨a, b, hm, hm', hab⟩
      · rw [hm, hm']
        exact .error f
      · rw [hm, hm']
        exact .ok ⟨rfl, hab⟩
  | @handleFunc sort taskType f mws mws' hmws =>
    have hlookup : m'.hf.lookup taskType = m.hf.lookup taskType := by rw [h.hf]
    have hchain : m'.buildChain ⟨taskType, f, mws', f⟩ = m.buildChain ⟨taskType, f, mws, f⟩ :=
      h.buildChain (hmws.wrap_eq f)
    simp only [Mux.call, Mux.handleFunc, hmws.any_isNone, hlookup, hchain]
    split_ifs with hnil
    · exact .ok ⟨rfl, h⟩
    · cases m.hf.lookup taskType with
      | some e => exact .ok ⟨rfl, h⟩
      | none =>
        cases m.buildChain ⟨taskType, f, mws, f⟩ with
        | error fault => exact .error fault
        | ok combined => exact .ok ⟨rfl, h.register sort taskType f combined hmws⟩

theorem Same.calls (h : m.Same m') {cs cs' : List (MuxCall H)}
    (hcs : List.Forall₂ MuxCall.Regrouped cs cs') :
    SameResult Same (m.calls cs) (m'.calls cs') := by
  induction hcs generalizing m m' with
  | nil => exact .ok h
  | cons hc _ ih =>
    rcases (h.call hc).elim with ⟨f, hm, hm'⟩ | ⟨a, b, hm, hm', _, hab⟩
    · simpa only [Mux.calls, hm, hm'] using .error f
    · simpa only [Mux.calls, hm, hm'] using ih hab

theorem scan_same {entries entries' : List (EntryHandler H)}
    (h : List.Forall₂ EntryHandler.Same entries entries') (taskType : String) (ehf : List Nat) :
    (((ehf.filterMap fun e => entries'[e]?).find? fun e => hasPrefix taskType e.ttype).map
      (·.combined)) =
    (((ehf.filterMap fun e => entries[e]?).find? fun e => hasPrefix taskType e.ttype).map
      (·.combined)) := by
  induction ehf with
  | nil => rfl
  | cons e ehf ih =>
    rcases forall₂_getElem? h e with ⟨hm, hm'⟩ | ⟨a, b, hm, hm', hab⟩
    · simpa only [List.filterMap_cons, hm, hm'] using ih
    · simp only [List.filterMap_cons, hm, hm', List.find?_cons, hab.ttype]
      cases hasPrefix taskType a.ttype with
      | true => exact congrArg some hab.combined
      | false => exact ih

theorem handler_eq_resolve (m : Mux H) (notFoundHandler : H) (t : Task) :
    m.handler notFoundHandler t = ((m.resolve t.type).map (·.combined)).getD notFoundHandler := by
  unfold handler
  cases m.resolve t.type <;> rfl

theorem Same.handler (h : m.Same m') (notFoundHandler : H) (t : Task) :
    m'.handler notFoundHandler t = m.handler notFoundHandler t := by
  have hcombined : (m'.resolve t.type).map (·.combined) = (m.resolve t.type).map (·.combined) := by
    unfold resolve
    rw [h.hf, h.ehf]
    cases m.hf.lookup t.type with
    | none => exact scan_same h.entries t.type m.ehf
    | some e =>
      rcases forall₂_getElem? h.entries e with ⟨hm, hm'⟩ | ⟨a, b, hm, hm', hab⟩
      · simp only [hm, hm']
      · simp only [hm, hm', Option.map_some, hab.combined]
  rw [handler_eq_resolve, handler_eq_resolve, hcombined]

theorem Same.refl (m : Mux H) : m.Same m :=
  ⟨List.forall₂_same.mpr fun _ _ => ⟨rfl, rfl, rfl⟩, rfl, rfl, fun _ => rfl⟩

end Mux

open Mux in
/-- After any calls a routed task is handled by its handler inside the middleware of its
route, inside all the middleware that `Use` accepted, each in the order of registration. The
same calls with runs of middleware bundled by `Chain` have the same outcome, as long as no
bundled middleware is nil. -/
theorem handlers_are_wrapped_in_order {H : Type} (notFoundHandler : H) (cs : List (MuxCall H))
    (hcs : ∀ c ∈ cs, Proper c) :
    (∀ m, ({} : Mux H).calls cs = .ok m →
      ∀ (t : Task) (route : Route H), (({} : Router H).calls cs).Longest t.type route →
        wrap ((({} : Router H).calls cs).mws ++ route.mws) route.h =
          .ok (m.handler notFoundHandler t)) ∧
    ∀ cs', List.Forall₂ MuxCall.Regrouped cs cs' →
      (∀ f, ({} : Mux H).calls cs = .error f → ({} : Mux H).calls cs' = .error f) ∧
      ∀ m, ({} : Mux H).calls cs = .ok m → ∃ m', ({} : Mux H).calls cs' = .ok m' ∧
        ∀ t, m'.handler notFoundHandler t = m.handler notFoundHandler t := by
  refine ⟨?_, ?_⟩
  · intro m hm t route hlongest
    have hrefines := Refines.new.calls hcs hm
    rcases hrefines.handler_cases notFoundHandler t with
      ⟨route', inner, hlongest', hinner, hhandler⟩ | ⟨hnone, -⟩
    · rw [hrefines.longest_unique hlongest hlongest', wrap_append, hinner]
      exact hhandler
    · have hstarts := hlongest.2.1
      rw [hnone route hlongest.1] at hstarts
      cases hstarts
  · intro cs' hregrouped
    rcases ((Same.refl {}).calls hregrouped).elim with ⟨f, hcs, hcs'⟩ | ⟨a, b, hcs, hcs', hsame⟩
    · rw [hcs, hcs']
      exact ⟨fun _ h => h, fun _ h => nomatch h⟩
    · rw [hcs, hcs']
      refine ⟨fun _ h => (nomatch h), fun m hm => ⟨b, rfl, ?_⟩⟩
      cases hm
      exact hsame.handler notFoundHandler

/-- Middleware that shows where it stands in a chain. -/
def named (name : String) : Option (Middleware String) :=
  some fun next => .ok (name ++ "(" ++ next ++ ")")

/-- Middleware of the router from before and from after the registration of a route. -/
def sampleCalls (mws : List (Option (Middleware String))) : List (MuxCall String) :=
  [.use [named "recover"], .handleFunc stableSort "email" "send" mws, .use [named "log", none],
    .use [named "log"]]

theorem sampleCalls_proper (mws : List (Option (Middleware String))) :
    ∀ c ∈ sampleCalls mws, Mux.Proper c := by
  intro c hc
  simp only [sampleCalls, List.mem_cons, List.not_mem_nil, or_false] at hc
  rcases hc with rfl | rfl | rfl | rfl
  · trivial
  · exact stableSort_sorts
  · trivial
  · trivial

theorem sampleCalls_regrouped :
    List.Forall₂ MuxCall.Regrouped (sampleCalls [named "auth", named "trace"])
      (sampleCalls [some (chain [named "auth", named "trace"])]) := by
  refine .cons (.use (.same _)) (.cons (.handleFunc _ _ _ ?_) (.cons (.use (.same _))
    (.cons (.use (.same _)) .nil)))
  exact .bundle [] [named "auth", named "trace"] [] (by simp [named])

theorem handlers_are_wrapped_in_order_sample : ∃ m m',
    ({} : Mux String).calls (sampleCalls [named "auth", named "trace"]) = .ok m ∧
    ({} : Mux String).calls (sampleCalls [some (chain [named "auth", named "trace"])]) = .ok m' ∧
    m.handler "unknown" (typedTask "email:new") = "recover(log(auth(trace(send))))" ∧
    m'.handler "unknown" (typedTask "email:new") = "recover(log(auth(trace(send))))" := by
  have hrun : (({} : Mux String).calls (sampleCalls [named "auth", named "trace"])).map
      (fun m => m.handler "unknown" (typedTask "email:new")) =
        .ok "recover(log(auth(trace(send))))" := by
    decide +kernel
  cases hm : ({} : Mux String).calls (sampleCalls [named "auth", named "trace"]) with
  | error f =>
    rw [hm] at hrun
    cases hrun
  | ok m =>
    rw [hm] at hrun
    have hhandler : m.handler "unknown" (typedTask "email:new") =
        "recover(log(auth(trace(send))))" := Except.ok.inj hrun
    obtain ⟨m', hm', hsame⟩ := ((handlers_are_wrapped_in_order "unknown" _
      (sampleCalls_proper _)).2 _ sampleCalls_regrouped).2 m hm
    exact ⟨m, m', rfl, hm', hhandler, (hsame _).trans hhandler⟩

/-- A nil middleware is refused, and accepted inside a chain, which then panics. -/
theorem chain_hides_nil_middleware :
    ({} : Mux String).call (.handleFunc stableSort "email" "send" [none]) =
      .ok (some Sentinel.invalidMiddleware.error, {}) ∧
    ({} : Mux String).call (.handleFunc stableSort "email" "send" [some (chain [none])]) =
      .error nilCall :=
  ⟨rfl, rfl⟩

end AsyncJobs
