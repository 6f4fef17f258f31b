import ClassScript.Proofs.Execution.Frame

/-!
One step of a machine that runs annotated code.

Every instruction leads a running machine to a running machine, leaves the frames of the run, or ends
it. The lemmas follow the parts that instructions are made of; `Running.step` puts them together.
-/

namespace ClassScript.Flow

open Code (Instruction)
open Machine

variable {W : Setting} {b : Base} {f : Frame} {fs : List Frame} {slots : List Nat}
  {stored : List (List Nat)} {g : MethodImage} {s t : State} {stack rest : List Value}
  {fields : Option (Array Value)} {statics : Array Value} {sink : Sink}

/-! ## Frames that go on -/

/-- A frame stands in front of an instruction that it can execute. -/
theorem Stands.fetch (h : Stands W f slots g s) : ∃ i w, Executes (W.context f g) s i w ∧
    (∀ t, w.next = some t → Leads (W.context f g) (W.known f) t (f.ip + i.width)) ∧
    (∀ t, w.jump = some t → ∃ p, Verify.target? i (f.ip + i.width) = some (some p) ∧
      Leads (W.context f g) (W.known f) t p) ∧
    ∀ m : Machine, m.frames = f :: fs → m.fetch? W.program = some i := by
  have hnote := W.notes.annotated _ _ _ h.method
  obtain ⟨front, back, hcode, hip⟩ := hnote.split h.known
  cases back with
  | nil =>
    have hend : f.ip = (W.note f.cls f.method).code.size := by rw [hip, hcode, List.append_nil]
    have := hnote.stop (hend ▸ h.known)
    rw [h.live] at this
    cases this
  | cons i back =>
    obtain ⟨s', w, hs', hw, hnext, hjump⟩ := hnote.allows hcode
    rw [← hip] at hs' hnext hjump
    obtain rfl : s = s' := Option.some.inj (h.known.symm.trans hs')
    refine ⟨i, w, hw, hnext, hjump, fun m hm => ?_⟩
    exact fetch_of_spells hm h.method (hcode ▸ hnote.spells) hip

/-- A frame goes on where a state is expected. -/
theorem Stands.move (h : Stands W f slots g s) {ip : Nat} {locals : Array Value}
    {slots' : List Nat} (hlead : Leads (W.context f g) (W.known f) t ip) (hlive : t.live = true)
    (hstored : ∀ n, t.stored n → n < g.params.length ∨ n ∈ slots')
    (hsize : locals.size = (W.note f.cls f.method).types.length)
    (hlocals : ∀ n v t, n < g.params.length ∨ n ∈ slots' → locals[n]? = some v →
      (W.note f.cls f.method).types[n]? = some t → Holds W.strict v t) :
    ∃ u, Stands W ⟨f.cls, f.method, ip, locals⟩ slots' g u ∧ (u.top = none ∨ u.top = t.top) ∧
      (W.sane → t.stack = u.stack) := by
  obtain ⟨u, hu, hbelow⟩ := hlead
  exact ⟨u, ⟨h.method, hu, hbelow.live hlive, fun n hn => hstored n (hbelow.stored hlive n hn), hsize,
    hlocals, h.home⟩, hbelow.top, hbelow.stack⟩

/-- The innermost frame goes on. -/
theorem Running.go (h : Stands W f slots g s) (hcallers : Callers W b fs stored rest g.returns)
    {ip : Nat} {locals : Array Value} {slots' : List Nat}
    (hlead : Leads (W.context f g) (W.known f) t ip) (hlive : t.live = true)
    (hstored : ∀ n, t.stored n → n < g.params.length ∨ n ∈ slots')
    (hsize : locals.size = (W.note f.cls f.method).types.length)
    (hlocals : ∀ n v t, n < g.params.length ∨ n ∈ slots' → locals[n]? = some v →
      (W.note f.cls f.method).types[n]? = some t → Holds W.strict v t)
    (htop : ∀ c, t.top = some c → stack.head? = some (.bool c)) (hstack : Upon W rest stack t.stack)
    (hkept : Kept W fields statics) :
    Running W b ⟨⟨f.cls, f.method, ip, locals⟩ :: fs, stack, fields, statics, sink⟩
      (slots' :: stored) := by
  obtain ⟨u, hu, hutop, hustack⟩ := h.move hlead hlive hstored hsize hlocals
  refine .intro hu (fun c hc => ?_) (hstack.below hustack) hcallers hkept
  obtain hnone | hsome := hutop
  · rw [hnone] at hc
    cases hc
  · exact htop c (hsome.symm.trans hc)

/-- The innermost frame goes on with its locals as they are. -/
theorem Running.keep (h : Stands W f slots g s) (hcallers : Callers W b fs stored rest g.returns)
    {ip : Nat} (hlead : Leads (W.context f g) (W.known f) t ip) (hlive : t.live = true)
    (hstored : t.stored = s.stored) (htop : ∀ c, t.top = some c → stack.head? = some (.bool c))
    (hstack : Upon W rest stack t.stack) (hkept : Kept W fields statics) :
    Running W b ⟨⟨f.cls, f.method, ip, f.locals⟩ :: fs, stack, fields, statics, sink⟩
      (slots :: stored) :=
  .go h hcallers hlead hlive (hstored ▸ h.stored) h.size h.locals htop hstack hkept

/-- The innermost frame goes on with another stack. -/
theorem Running.restack (h : Stands W f slots g s) (hcallers : Callers W b fs stored rest g.returns)
    {ip : Nat} {ts : List ValueType} (hlead : Leads (W.context f g) (W.known f) (s.restack ts) ip)
    (hstack : Upon W rest stack ts) (hkept : Kept W fields statics) :
    Running W b ⟨⟨f.cls, f.method, ip, f.locals⟩ :: fs, stack, fields, statics, sink⟩
      (slots :: stored) :=
  .keep h hcallers hlead h.live rfl nofun hstack hkept

/-! ## Faults -/

variable {offset : Nat}

/-- Something is found wrong with the code only if types are not kept track of. -/
theorem proceeds_refuse {m : Machine} {d : CodeDefect} (hstrict : ¬ W.strict)
    (hd : W.sane → d ≠ .stackUnderflow) (hkept : Kept W m.fields m.statics) :
    Proceeds W b stored (m.refuse offset d) := .fault ⟨hstrict, hd⟩ hkept

theorem proceeds_pop {k : Value → Machine → Step} {u : ValueType} {ts : List ValueType}
    (hstack : Upon W rest stack s.stack) (hs : W.sane → s.stack = u :: ts)
    (hkept : Kept W fields statics)
    (hk : ∀ v stack', stack = v :: stack' → Holds W.strict v u → Upon W rest stack' ts →
      Proceeds W b stored (k v ⟨fs, stack', fields, statics, sink⟩)) :
    Proceeds W b stored (pop ⟨fs, stack, fields, statics, sink⟩ offset k) := by
  cases stack with
  | nil =>
    have hsane := hstack.ne_nil hs
    exact proceeds_refuse (hsane ∘ W.sane_of_strict) (fun h => absurd h hsane) hkept
  | cons v stack =>
    obtain ⟨hv, hrest⟩ := hstack.pop hs
    exact hk v stack rfl hv hrest

theorem proceeds_popArgs {k : List Value → Machine → Step} {params ts : List ValueType}
    (hstack : Upon W rest stack s.stack) (hs : W.sane → s.stack = params.reverse ++ ts)
    (hkept : Kept W fields statics)
    (hk : ∀ args stack', args.length = params.length → (W.strict → args.map (·.type) = params) →
      Upon W rest stack' ts → Proceeds W b stored (k args ⟨fs, stack', fields, statics, sink⟩)) :
    Proceeds W b stored
      (popArgs ⟨fs, stack, fields, statics, sink⟩ params.length offset k) := by
  simp only [popArgs]
  cases htake : takeArgs params.length [] stack with
  | none =>
    have hsane : ¬ W.sane := by
      intro hsane
      have hlength := hstack.length_le (n := params.length) (fun h => by simp [hs h]) hsane
      have := takeArgs_append (stack.take params.length) [] (stack.drop params.length)
      rw [List.take_append_drop, List.length_take, Nat.min_eq_left hlength, htake] at this
      cases this
    exact proceeds_refuse (hsane ∘ W.sane_of_strict) (fun h => absurd h hsane) hkept
  | some taken =>
    obtain ⟨args, stack'⟩ := taken
    obtain ⟨taken, rfl, hlength, rfl⟩ := takeArgs_eq_some htake
    obtain ⟨htypes, hrest⟩ := hstack.take hlength hs
    rw [List.append_nil]
    exact hk _ stack' (by rw [List.length_reverse, hlength]) htypes hrest

/-- A value that is looked up is pushed. -/
theorem proceeds_slot (h : Stands W f slots g s)
    (hcallers : Callers W b fs stored rest g.returns) {ip : Nat} {o : Option Value} {u : ValueType}
    {d : CodeDefect} (hlead : Leads (W.context f g) (W.known f) (s.restack (u :: s.stack)) ip)
    (hstack : Upon W rest stack s.stack) (hkept : Kept W fields statics)
    (ho : W.strict → ∃ v, o = some v ∧ v.type = u) (hd : d ≠ .stackUnderflow) :
    Proceeds W b (slots :: stored) (pushSlot
      ⟨⟨f.cls, f.method, ip, f.locals⟩ :: fs, stack, fields, statics, sink⟩ offset o d) := by
  cases o with
  | none =>
    refine proceeds_refuse (fun hstrict => ?_) (fun _ => hd) hkept
    obtain ⟨v, hv, -⟩ := ho hstrict
    cases hv
  | some v =>
    refine .next (.restack h hcallers hlead (hstack.push fun hstrict => ?_) hkept)
    obtain ⟨w, hw, hu⟩ := ho hstrict
    rw [Option.some.inj hw, hu]

/-- A computed value is pushed. -/
theorem proceeds_result (h : Stands W f slots g s)
    (hcallers : Callers W b fs stored rest g.returns) {ip : Nat} {r : Except EvalError Value}
    {u : ValueType} {ts : List ValueType}
    (hlead : Leads (W.context f g) (W.known f) (s.restack (u :: ts)) ip) (hstack : Upon W rest stack ts)
    (hkept : Kept W fields statics) (hr : W.strict → Computes u r) :
    Proceeds W b (slots :: stored) (pushResult
      ⟨⟨f.cls, f.method, ip, f.locals⟩ :: fs, stack, fields, statics, sink⟩ offset r) := by
  cases r with
  | ok v => exact .next (.restack h hcallers hlead (hstack.push hr) hkept)
  | error e =>
    cases e with
    | overflow => exact .fault trivial hkept
    | divideByZero => exact .fault trivial hkept
    | typeMismatch op ts => exact proceeds_refuse hr (fun _ => nofun) hkept

/-! ## Slots -/

theorem proceeds_setLocal (h : Stands W f slots g s)
    (hcallers : Callers W b fs stored rest g.returns) {ip n : Nat} {v : Value} {u : ValueType}
    {ts : List ValueType} (hu : (W.note f.cls f.method).types[n]? = some u)
    (hlead : Leads (W.context f g) (W.known f)
      ⟨ts, none, s.live, fun k => k = n ∨ s.stored k⟩ ip) (hv : Holds W.strict v u)
    (hstack : Upon W rest stack ts) (hkept : Kept W fields statics) :
    Proceeds W b ((n :: slots) :: stored) (setLocal
      ⟨⟨f.cls, f.method, ip, f.locals⟩ :: fs, stack, fields, statics, sink⟩ offset n v) := by
  have hn : n < f.locals.size := h.size ▸ (List.getElem?_eq_some_iff.mp hu).1
  simp only [setLocal, if_pos hn]
  refine .next (.go h hcallers hlead h.live (fun k hk => ?_) (by simpa using h.size)
    (fun k w t hk hw ht => ?_) nofun hstack hkept)
  · obtain rfl | hk := hk
    · exact .inr List.mem_cons_self
    · exact (h.stored k hk).imp_right (List.mem_cons_of_mem n)
  · by_cases hkn : n = k
    · subst hkn
      rw [Array.getElem?_setIfInBounds_self_of_lt hn] at hw
      rw [hu] at ht
      cases hw
      cases ht
      exact hv
    · rw [Array.getElem?_setIfInBounds_ne hkn] at hw
      refine h.locals k w t ?_ hw ht
      exact hk.imp_right fun hk => (List.mem_cons.mp hk).resolve_left (Ne.symm hkn)

theorem proceeds_setField (h : Stands W f slots g s)
    (hcallers : Callers W b fs stored rest g.returns) {ip n : Nat} {v : Value} {u : ValueType}
    {ts : List ValueType} (hu : (W.program.image.fieldTypes f.cls)[n]? = some u)
    (hreceiver : g.isStatic = false)
    (hlead : Leads (W.context f g) (W.known f) (s.restack ts) ip) (hv : Holds W.strict v u)
    (hstack : Upon W rest stack ts) (hkept : Kept W fields statics) :
    Proceeds W b (slots :: stored) (setField
      ⟨⟨f.cls, f.method, ip, f.locals⟩ :: fs, stack, fields, statics, sink⟩ offset n v) := by
  have hfields (hstrict : W.strict) := hkept.fields hstrict f.cls (h.home hreceiver)
  cases fields with
  | none =>
    refine proceeds_refuse (fun hstrict => ?_) (fun _ => nofun) hkept
    obtain ⟨vs, hvs, -⟩ := hfields hstrict
    cases hvs
  | some vs =>
    simp only [setField]
    split
    · refine .next (.restack h hcallers hlead hstack ⟨hkept.statics, fun hstrict c hc => ?_⟩)
      obtain ⟨vs', hvs', htypes⟩ := hkept.fields hstrict c hc
      cases hvs'
      obtain rfl : f.cls = c := Option.some.inj ((h.home hreceiver).symm.trans hc)
      exact ⟨_, rfl, types_setIfInBounds htypes (by rw [hv hstrict, hu])⟩
    · next hn =>
      refine proceeds_refuse (fun hstrict => hn ?_) (fun _ => nofun) hkept
      obtain ⟨vs', hvs', htypes⟩ := hfields hstrict
      cases hvs'
      obtain ⟨w, hw, -⟩ := type_of_getElem? htypes hu
      exact (Array.getElem?_eq_some_iff.mp hw).1

theorem proceeds_setStatic (h : Stands W f slots g s)
    (hcallers : Callers W b fs stored rest g.returns) {ip n : Nat} {v : Value} {u : ValueType}
    {ts : List ValueType} (hu : W.program.image.staticTypes[n]? = some u)
    (hlead : Leads (W.context f g) (W.known f) (s.restack ts) ip) (hv : Holds W.strict v u)
    (hstack : Upon W rest stack ts) (hkept : Kept W fields statics) :
    Proceeds W b (slots :: stored) (setStatic
      ⟨⟨f.cls, f.method, ip, f.locals⟩ :: fs, stack, fields, statics, sink⟩ offset n v) := by
  simp only [setStatic]
  split
  · refine .next (.restack h hcallers hlead hstack ⟨fun hstrict => ?_, hkept.fields⟩)
    exact types_setIfInBounds (hkept.statics hstrict) (by rw [hv hstrict, hu])
  · next hn =>
    refine proceeds_refuse (fun hstrict => hn ?_) (fun _ => nofun) hkept
    obtain ⟨w, hw, -⟩ := type_of_getElem? (hkept.statics hstrict) hu
    exact (Array.getElem?_eq_some_iff.mp hw).1

/-! ## Jumps -/

theorem proceeds_branch (h : Stands W f slots g s)
    (hcallers : Callers W b fs stored rest g.returns) {after target : Nat} {op : Opcode}
    {wanted : Bool} {ts : List ValueType}
    (hnext : Leads (W.context f g) (W.known f)
      ⟨ts, none, s.live && s.top != some wanted, s.stored⟩ after)
    (hjump : Leads (W.context f g) (W.known f)
      ⟨ts, none, s.live && s.top != some !wanted, s.stored⟩ target)
    (hs : W.sane → s.stack = .bool :: ts)
    (htop : ∀ c, s.top = some c → stack.head? = some (.bool c))
    (hstack : Upon W rest stack s.stack) (hkept : Kept W fields statics) :
    Proceeds W b (slots :: stored) (branch
      ⟨⟨f.cls, f.method, after, f.locals⟩ :: fs, stack, fields, statics, sink⟩ offset target op
      wanted) := by
  refine proceeds_pop hstack hs hkept fun v stack' hv htype hrest => ?_
  cases v with
  | bool c =>
    -- a known condition goes one way only
    have hlive {d : Bool} (hd : c ≠ d) : (s.live && s.top != some d) = true := by
      rw [h.live, Bool.true_and, bne_iff_ne]
      intro hsome
      have := htop d hsome
      rw [hv] at this
      cases this
      exact hd rfl
    simp only
    split
    · next hc =>
      refine .next (.keep h hcallers hjump (hlive ?_) rfl nofun hrest hkept)
      simp [hc]
    · next hc => exact .next (.keep h hcallers hnext (hlive hc) rfl nofun hrest hkept)
  | _ => exact proceeds_refuse (fun hstrict => nomatch htype hstrict) (fun _ => nofun) hkept

/-! ## Calls -/

/-- A new frame stands at the start of its method. -/
theorem stands_entered {c j : Nat} (hmethod : W.program.method? c j = some g) {args : List Value}
    (hlength : args.length = g.params.length) (htypes : W.strict → args.map (·.type) = g.params)
    (hhome : g.isStatic = false → W.home = some c) :
    ∃ u, Stands W ⟨c, j, 0, frameLocals args g.locals.toNat⟩ [] g u ∧ u.top = none ∧
      (W.sane → u.stack = []) := by
  have hnote := W.notes.annotated c j g hmethod
  obtain ⟨κ, S, hflows⟩ := hnote.flows
  obtain ⟨u, hu, hbelow⟩ := hflows.start
  have hsize : (W.note c j).types.length = g.locals.toNat := hnote.size
  have hfits : args.length ≤ g.locals.toNat := by
    rw [hlength, ← hsize]
    exact hnote.params.length_le
  refine ⟨u, ⟨hmethod, hu, hbelow.live rfl, fun n hn => .inl (hbelow.stored rfl n hn),
    (size_frameLocals hfits).trans hsize.symm, fun n v t hn hv ht hstrict => ?_, hhome⟩,
    hbelow.top.elim id id, fun hsane => (hbelow.stack hsane).symm⟩
  have hn : n < g.params.length := hn.elim id fun hn => nomatch hn
  rw [getElem?_frameLocals (hlength ▸ hn) hfits] at hv
  have hparam : g.params[n]? = some t := by
    rw [← ht]
    exact (List.prefix_iff_getElem?.mp hnote.params n hn).symm ▸ List.getElem?_eq_getElem hn
  rw [← htypes hstrict, List.getElem?_map, hv] at hparam
  exact Option.some.inj hparam

theorem proceeds_enter {c j : Nat} (hmethod : W.program.method? c j = some g) {args : List Value}
    (hlength : args.length = g.params.length) (htypes : W.strict → args.map (·.type) = g.params)
    (hhome : g.isStatic = false → W.home = some c)
    (hcallers : Callers W b fs stored stack g.returns) (hkept : Kept W fields statics) :
    Proceeds W b ([] :: stored) (enter W.program c j args ⟨fs, stack, fields, statics, sink⟩) := by
  obtain ⟨u, hu, htop, hnil⟩ := stands_entered hmethod hlength htypes hhome
  unfold enter
  split
  · exact .fault trivial hkept
  · simp only [hmethod, hlength, ne_eq, not_true_eq_false, if_false]
    refine .next (.intro hu (fun c hc => ?_) (fun hsane => ⟨[], rfl, ?_⟩) hcallers hkept)
    · rw [htop] at hc
      cases hc
    · rw [hnil hsane]
      exact .nil

theorem proceeds_leave (f' : Frame) (result : Option Value)
    (hcallers : Callers W b fs stored rest g.returns)
    (hresult : HoldsAll W.strict result.toList (returned g.returns))
    (hstack : Upon W rest stack []) (hkept : Kept W fields statics) :
    Proceeds W b stored (leave ⟨f' :: fs, stack, fields, statics, sink⟩ result) := by
  have hrest (hsane : W.sane) : stack = rest := by
    obtain ⟨vs, rfl, hvs⟩ := hstack hsane
    cases hvs
    rfl
  generalize hr : g.returns = r at hcallers hresult
  cases hcallers with
  | base =>
    cases hframes : b.frames with
    | nil => exact .done hframes (HoldsAll.getD hresult) hkept
    | cons f fs =>
      have hne : b.frames ≠ [] := by simp [hframes]
      have hleft : Proceeds W b b.stored
          (.next ⟨b.frames, result.toList ++ stack, fields, statics, sink⟩) :=
        .left hne hresult (fun hsane => congrArg _ (hrest hsane)) hkept
      rwa [hframes] at hleft
  | frame hstands htop hs hstack' h =>
    refine .next (.intro hstands (fun c hc => ?_) (fun hsane => ?_) h hkept)
    · rw [htop] at hc
      cases hc
    · obtain ⟨vs, hvs, hall⟩ := hstack' hsane
      refine ⟨result.toList ++ vs, ?_, hs hsane ▸ hresult.append hall⟩
      rw [hrest hsane, hvs, List.append_assoc]

theorem proceeds_callNative (h : Stands W f slots g s)
    (hcallers : Callers W b fs stored rest g.returns) {ip n : Nat} {i : NativeImport}
    {ts : List ValueType} (hi : W.program.image.imports[n]? = some i)
    (hlead : Leads (W.context f g) (W.known f) (s.restack (returned i.returns ++ ts)) ip)
    (hs : W.sane → s.stack = i.params.reverse ++ ts) (hstack : Upon W rest stack s.stack)
    (hkept : Kept W fields statics) :
    Proceeds W b (slots :: stored) (callNative W.program
      ⟨⟨f.cls, f.method, ip, f.locals⟩ :: fs, stack, fields, statics, sink⟩ offset n) := by
  simp only [callNative, hi]
  cases hbody : W.program.natives[n]? with
  | none =>
    refine proceeds_refuse (fun hstrict => ?_) (fun _ => nofun) hkept
    obtain ⟨body, hsome, -⟩ := W.sound hstrict n i hi
    rw [hbody] at hsome
    cases hsome
  | some body =>
    refine proceeds_popArgs hstack hs hkept fun args stack' _ _ hrest => ?_
    simp only
    cases hrun : body.run args.toArray sink with
    | mk r sink' =>
      cases r with
      | error e => exact .fault trivial hkept
      | ok v =>
        have hv : Holds W.strict v i.returns := fun hstrict => by
          obtain ⟨body', hsome, hresults⟩ := W.sound hstrict n i hi
          obtain rfl : body = body' := Option.some.inj (hbody.symm.trans hsome)
          exact hresults _ _ _ _ hrun
        refine .next (.restack h hcallers hlead ?_ hkept)
        rw [returned]
        split
        · exact hrest
        · exact hrest.push hv

/-! ## Instructions -/

theorem execute_unary {op : Opcode} {u u' : ValueType} (h : op.unaryType? u = some u')
    (p : Program) (offset after : Nat) (m : Machine) :
    execute p (.plain op) offset after m = m.pop offset fun v m =>
      m.pushResult offset (op.evalUnary p.image.checked v) := by
  cases op <;> first | rfl | simp [Opcode.unaryType?] at h

theorem execute_binary {op : Opcode} {l r u : ValueType} (h : op.binaryType? l r = some u)
    (p : Program) (offset after : Nat) (m : Machine) :
    execute p (.plain op) offset after m = m.pop offset fun right m => m.pop offset fun left m =>
      m.pushResult offset (op.evalBinary p.image.checked left right) := by
  cases op <;> first | rfl | simp [Opcode.binaryType?, Opcode.arith?, Opcode.order?] at h

theorem storedBy_unary {op : Opcode} {u u' : ValueType} (h : op.unaryType? u = some u')
    (stored : List (List Nat)) : storedBy (.plain op) stored = stored := by
  cases op <;> first | rfl | simp [Opcode.unaryType?] at h

theorem storedBy_binary {op : Opcode} {l r u : ValueType} (h : op.binaryType? l r = some u)
    (stored : List (List Nat)) : storedBy (.plain op) stored = stored := by
  cases op <;> first | rfl | simp [Opcode.binaryType?, Opcode.arith?, Opcode.order?] at h

/-- Every step of a running machine leads to one, leaves the frames of the run, or ends it. -/
theorem Running.step {m : Machine} (h : Running W b m stored)
    (hread : W.strict → ∀ n, m.fetch? W.program = some (.unary .getLocal n) →
      m.HasStored W.program stored n) :
    ∃ i, m.fetch? W.program = some i ∧
      Proceeds W b (storedBy i stored) (Machine.step W.program m) := by
  cases h with
  | @intro f fs slots stored g s stack rest fields statics sink hstands htop hstack hcallers hkept =>
  obtain ⟨i, w, hexec, hnext, hjump, hfetch⟩ := hstands.fetch
  have hfetch := hfetch ⟨f :: fs, stack, fields, statics, sink⟩ rfl
  refine ⟨i, hfetch, ?_⟩
  obtain ⟨f', fs', hframes, hstep⟩ := step_of_fetch hfetch
  obtain ⟨rfl, rfl⟩ := List.cons.inj hframes
  rw [hstep]
  cases hexec with
  | @constant n c hc =>
    have hvalue : (W.program.image.constants[n]?).map Constant.value = some c.value :=
      congrArg (Option.map Constant.value) hc
    exact proceeds_slot hstands hcallers (hnext _ rfl) hstack hkept
      (fun _ => ⟨c.value, hvalue, rfl⟩) nofun
  | pushTrue =>
    refine .next (.keep hstands hcallers (hnext _ rfl) hstands.live rfl (fun c hc => ?_)
      (hstack.push fun _ => rfl) hkept)
    cases hc
    rfl
  | pushFalse =>
    refine .next (.keep hstands hcallers (hnext _ rfl) hstands.live rfl (fun c hc => ?_)
      (hstack.push fun _ => rfl) hkept)
    cases hc
    rfl
  | pop hs =>
    refine proceeds_pop hstack hs hkept fun v stack' _ _ hrest => ?_
    exact .next (.restack hstands hcallers (hnext _ rfl) hrest hkept)
  | @dup u ts hs =>
    have hlead := hnext _ rfl
    cases stack with
    | nil =>
      have hsane := hstack.ne_nil hs
      exact proceeds_refuse (hsane ∘ W.sane_of_strict) (fun h => absurd h hsane) hkept
    | cons v stack =>
      obtain ⟨hv, hrest⟩ := hstack.pop hs
      exact .next (.restack hstands hcallers hlead ((hrest.push hv).push hv) hkept)
  | @getLocal n u hu _ =>
    have hn : n < f.locals.size := hstands.size ▸ (List.getElem?_eq_some_iff.mp hu).1
    have hlocal : f.locals[n]? = some f.locals[n] := Array.getElem?_eq_getElem hn
    refine proceeds_slot hstands hcallers (hnext _ rfl) hstack hkept (fun hstrict => ?_) nofun
    obtain ⟨g', hg', hstored⟩ := hread hstrict n hfetch
    obtain rfl : g = g' := Option.some.inj (hstands.method.symm.trans hg')
    exact ⟨_, hlocal, hstands.locals n _ u hstored hlocal hu hstrict⟩
  | @setLocal n u ts hu hs =>
    change Proceeds W b ((n :: slots) :: stored) (pop _ f.ip fun v m => m.setLocal f.ip n v)
    refine proceeds_pop hstack hs hkept fun v stack' _ hv hrest => ?_
    exact proceeds_setLocal hstands hcallers hu (hnext _ rfl) hv hrest hkept
  | @getField n u hu hr =>
    refine proceeds_slot hstands hcallers (hnext _ rfl) hstack hkept (fun hstrict => ?_) nofun
    obtain ⟨vs, rfl, htypes⟩ := hkept.fields hstrict f.cls (hstands.home hr)
    exact type_of_getElem? htypes hu
  | @setField n u ts hu hr hs =>
    change Proceeds W b (slots :: stored) (pop _ f.ip fun v m => m.setField f.ip n v)
    refine proceeds_pop hstack hs hkept fun v stack' _ hv hrest => ?_
    exact proceeds_setField hstands hcallers hu hr (hnext _ rfl) hv hrest hkept
  | @getStatic n u hu =>
    exact proceeds_slot hstands hcallers (hnext _ rfl) hstack hkept
      (fun hstrict => type_of_getElem? (hkept.statics hstrict) hu) nofun
  | @setStatic n u ts hu hs =>
    change Proceeds W b (slots :: stored) (pop _ f.ip fun v m => m.setStatic f.ip n v)
    refine proceeds_pop hstack hs hkept fun v stack' _ hv hrest => ?_
    exact proceeds_setStatic hstands hcallers hu (hnext _ rfl) hv hrest hkept
  | @unary op u u' ts hu hs =>
    rw [execute_unary hu, storedBy_unary hu]
    refine proceeds_pop hstack hs hkept fun v stack' _ hv hrest => ?_
    exact proceeds_result hstands hcallers (hnext _ rfl) hrest hkept fun hstrict =>
      Opcode.evalUnary_computes hu (hv hstrict) _
  | @binary op l r u ts hu hs =>
    rw [execute_binary hu, storedBy_binary hu]
    refine proceeds_pop hstack hs hkept fun y stack' _ hy hrest => ?_
    refine proceeds_pop (s := s.restack (l :: ts)) hrest (fun _ => rfl) hkept
      fun x stack'' _ hx hrest => ?_
    exact proceeds_result hstands hcallers (hnext _ rfl) hrest hkept fun hstrict =>
      Opcode.evalBinary_computes hu (hx hstrict) (hy hstrict) _
  | @jump d =>
    obtain ⟨p, hp, hlead⟩ := hjump _ rfl
    cases hp
    exact .next (.keep hstands hcallers hlead hstands.live rfl htop hstack hkept)
  | @loop d =>
    obtain ⟨p, hp, hlead⟩ := hjump _ rfl
    obtain ⟨hd, hp⟩ := Option.ite_none_right_eq_some.mp (Option.some.inj hp)
    cases hp
    change Proceeds W b (slots :: stored) (if d ≤ f.ip + 3 then .next (goTo _ (f.ip + 3 - d)) else _)
    rw [if_pos (show d ≤ f.ip + 3 from hd)]
    exact .next (.keep hstands hcallers hlead hstands.live rfl htop hstack hkept)
  | @jumpIfFalse d ts hs =>
    obtain ⟨p, hp, hlead⟩ := hjump _ rfl
    cases hp
    exact proceeds_branch hstands hcallers (hnext _ rfl) hlead hs htop hstack hkept
  | @jumpIfTrue d ts hs =>
    obtain ⟨p, hp, hlead⟩ := hjump _ rfl
    cases hp
    exact proceeds_branch hstands hcallers (hnext _ rfl) hlead hs htop hstack hkept
  | @call c j g' ts hg hr hs =>
    have hg : W.program.method? c j = some g' := hg
    have hhome : g'.isStatic = false → W.home = some c := fun hstatic => by
      obtain hs | ⟨rfl, hr⟩ := hr
      · rw [hs] at hstatic
        cases hstatic
      · exact hstands.home hr
    obtain ⟨u, hu, htop, hstack'⟩ := hstands.move (hnext _ rfl) hstands.live hstands.stored
      hstands.size hstands.locals
    have hexecute (m : Machine) : execute W.program ⟨.call, c, j⟩ f.ip (f.ip + 5) m =
        m.popArgs g'.params.length f.ip fun args m => enter W.program c j args m := by
      simp only [execute, hg]
    change Proceeds W b ([] :: slots :: stored) (execute W.program ⟨.call, c, j⟩ f.ip (f.ip + 5) _)
    rw [hexecute]
    refine proceeds_popArgs hstack hs hkept fun args stack' hlength htypes hrest => ?_
    refine proceeds_enter hg hlength htypes hhome (.frame hu ?_ ?_ hrest hcallers) hkept
    · exact htop.elim id id
    · exact fun hsane => (hstack' hsane).symm
  | @callNative n i ts hi hs =>
    exact proceeds_callNative hstands hcallers hi (hnext _ rfl) hs hstack hkept
  | ret hr hs =>
    change Proceeds W b stored (pop _ f.ip fun v m => m.leave (some v))
    refine proceeds_pop hstack hs hkept fun v stack' _ hv hrest => ?_
    exact proceeds_leave _ (some v) hcallers (.returned hv hr) hrest hkept
  | retVoid hr hs =>
    have hresult : HoldsAll W.strict (none : Option Value).toList (returned g.returns) := by
      rw [show g.returns = .void from hr]
      exact .nil
    exact proceeds_leave ⟨f.cls, f.method, f.ip + 1, f.locals⟩ none hcallers hresult
      (hstack.below hs) hkept

end ClassScript.Flow
