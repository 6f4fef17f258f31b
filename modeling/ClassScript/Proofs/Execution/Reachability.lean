import ClassScript.Proofs.Execution.Initialization

/-!
Statements that are not reached.

A statement is compiled as one that can be reached or cannot be, and its end can be reached or cannot
be. No frame ever stands in the code of a statement that cannot be reached, and no instruction of a
statement leads to an end that cannot be. So the warnings about unreachable code point at statements
that are never executed, no frame runs past the end of its code, and a method that has a result is
left with it.

Where a statement ends another one may end as well, and that end may be reached: a `break` at the end
of a loop that is not repeated jumps to the place behind itself. So the ends of statements are not
told apart by their places, but by what leads there.
-/

namespace ClassScript

open Code (Instruction)

/-! ## Frames -/

/-- A step goes on to a machine that `P` holds of, unless it fails. -/
def Step.GoesOn (P : Machine → Prop) : Step → Prop
  | .next m => P m
  | .done _ _ => False
  | .fault _ _ => True

namespace Machine

variable {p : Program} {m m' : Machine} {f : Frame} {fs : List Frame} {offset : Nat}
  {P : Machine → Prop}

theorem pop_goesOn {k : Value → Machine → Step} (h : ∀ v stack, m.stack = v :: stack →
    (k v ⟨m.frames, stack, m.fields, m.statics, m.sink⟩).GoesOn P) : (m.pop offset k).GoesOn P := by
  obtain ⟨frames, stack, fields, statics, sink⟩ := m
  cases stack with
  | nil => trivial
  | cons v stack => exact h v stack rfl

theorem pushSlot_goesOn {v : Option Value} {d : CodeDefect}
    (h : ∀ m' : Machine, m'.frames = m.frames → P m') : (m.pushSlot offset v d).GoesOn P := by
  cases v with
  | none => trivial
  | some v => exact h _ rfl

theorem pushResult_goesOn {r : Except EvalError Value}
    (h : ∀ m' : Machine, m'.frames = m.frames → P m') : (m.pushResult offset r).GoesOn P := by
  cases r with
  | error e => trivial
  | ok v => exact h _ rfl

theorem setLocal_goesOn {slot : Nat} {v : Value} (hm : m.frames = f :: fs)
    (h : ∀ (m' : Machine) (locals : Array Value),
      m'.frames = ⟨f.cls, f.method, f.ip, locals⟩ :: fs → P m') :
    (m.setLocal offset slot v).GoesOn P := by
  obtain ⟨frames, stack, fields, statics, sink⟩ := m
  obtain rfl := hm
  simp only [setLocal]
  split
  · exact h _ _ rfl
  · trivial

theorem setField_goesOn {slot : Nat} {v : Value}
    (h : ∀ m' : Machine, m'.frames = m.frames → P m') : (m.setField offset slot v).GoesOn P := by
  obtain ⟨frames, stack, fields, statics, sink⟩ := m
  cases fields with
  | none => trivial
  | some fields =>
    simp only [setField]
    split
    · exact h _ rfl
    · trivial

theorem setStatic_goesOn {slot : Nat} {v : Value}
    (h : ∀ m' : Machine, m'.frames = m.frames → P m') : (m.setStatic offset slot v).GoesOn P := by
  simp only [setStatic]
  split
  · exact h _ rfl
  · trivial

/-- A branch jumps if the condition on top is wanted. -/
theorem branch_goesOn {target : Nat} {op : Opcode} {wanted : Bool} (hm : m.frames = f :: fs)
    (h : ∀ (m' : Machine) (c : Bool), m.stack.head? = some (.bool c) →
      m'.frames = ⟨f.cls, f.method, if c = wanted then target else f.ip, f.locals⟩ :: fs → P m') :
    (m.branch offset target op wanted).GoesOn P := by
  refine pop_goesOn fun v stack hstack => ?_
  rw [hm]
  split
  · next c =>
    refine h _ c (by rw [hstack]; rfl) ?_
    by_cases hc : c = wanted
    · rw [if_pos hc, if_pos hc]
      rfl
    · rw [if_neg hc, if_neg hc]
  · trivial

/-- A call puts a frame on top of the others. -/
theorem call_goesOn {c j after : Nat} (h : ∀ (m' : Machine) (g : Frame),
    m'.frames = g :: m.frames → P m') : (execute p ⟨.call, c, j⟩ offset after m).GoesOn P := by
  cases hr : execute p ⟨.call, c, j⟩ offset after m with
  | next m' =>
    obtain ⟨g, args, -, -, -, rfl⟩ := call_next hr
    exact h _ _ rfl
  | fault e m' => trivial
  | done v m' =>
    simp only [execute, popArgs, enter] at hr
    repeat' split at hr
    all_goals cases hr

theorem callNative_goesOn {n : Nat} (h : ∀ m' : Machine, m'.frames = m.frames → P m') :
    (m.callNative p offset n).GoesOn P := by
  cases hr : m.callNative p offset n with
  | next m' =>
    obtain ⟨_, _, -, -, hframes, -⟩ := callNative_next hr
    exact h _ hframes
  | fault e m' => trivial
  | done v m' =>
    simp only [callNative, popArgs] at hr
    repeat' split at hr
    all_goals cases hr

theorem goTo_frames {ip : Nat} (hm : m.frames = f :: fs) :
    (m.goTo ip).frames = ⟨f.cls, f.method, ip, f.locals⟩ :: fs := by
  obtain ⟨frames, stack, fields, statics, sink⟩ := m
  obtain rfl := hm
  rfl

/-- A method that is left uncovers the frame below. -/
theorem leave_next {result : Option Value} (hm : m.frames = f :: fs)
    (h : m.leave result = .next m') : m'.frames = fs := by
  obtain ⟨frames, stack, fields, statics, sink⟩ := m
  obtain rfl := hm
  cases fs with
  | nil => cases h
  | cons f fs =>
    cases h
    rfl

theorem ret_next {i : Instruction} {after : Nat} (hm : m.frames = f :: fs)
    (hi : i.op = .ret ∨ i.op = .retVoid) (h : execute p i offset after m = .next m') :
    m'.frames = fs := by
  obtain ⟨frames, stack, fields, statics, sink⟩ := m
  obtain hop | hop := hi
  · simp only [execute, hop] at h
    cases stack with
    | nil => cases h
    | cons v stack =>
      refine leave_next (m := ⟨frames, stack, fields, statics, sink⟩) hm h
  · simp only [execute, hop] at h
    exact leave_next hm h

end Machine

namespace Flow

open Machine

variable {Γ : Context} {s : State} {i : Instruction} {w : Ways} {p : Program} {m m' : Machine}
  {f : Frame} {fs : List Frame}

/-- The innermost frame after an instruction: it goes on behind the instruction or at its target,
whichever can be reached, perhaps below the frame of a call. -/
def Onward (i : Instruction) (w : Ways) (f : Frame) (fs : List Frame) (m' : Machine) : Prop :=
  ∃ ip locals, (m'.frames = ⟨f.cls, f.method, ip, locals⟩ :: fs ∨
      ∃ g, m'.frames = g :: ⟨f.cls, f.method, ip, locals⟩ :: fs) ∧
    ((∃ t, w.next = some t ∧ t.live = true ∧ ip = f.ip + i.width) ∨
      ∃ t, w.jump = some t ∧ t.live = true ∧
        Verify.target? i (f.ip + i.width) = some (some ip))

/-- An instruction that leads to the next one only. -/
theorem Onward.on {t : State} {locals : Array Value} (hlive : t.live = true)
    (hm : m'.frames = ⟨f.cls, f.method, f.ip + i.width, locals⟩ :: fs) :
    Onward i (.on t) f fs m' := ⟨_, _, .inl hm, .inl ⟨t, rfl, hlive, rfl⟩⟩

/-- A branch goes where its condition tells. -/
theorem Onward.branch {d : Nat} {op : Opcode} {ts : List ValueType} {wanted c : Bool}
    (hlive : s.live = true) (htop : ∀ c', s.top = some c' → c = c')
    (htarget : Verify.target? (.unary op d) (f.ip + 3) = some (some (f.ip + 3 + d)))
    (hwidth : (Instruction.unary op d).width = 3)
    (hm : m'.frames =
      ⟨f.cls, f.method, if c = wanted then f.ip + 3 + d else f.ip + 3, f.locals⟩ :: fs) :
    Onward (.unary op d) (.branch s ts wanted) f fs m' := by
  refine ⟨_, _, .inl hm, ?_⟩
  rw [hwidth]
  by_cases hc : c = wanted
  · rw [if_pos hc]
    refine .inr ⟨_, rfl, ?_, htarget⟩
    simp only [hlive, Bool.true_and, bne_iff_ne, ne_eq]
    intro h
    rw [hc] at htop
    cases wanted <;> cases htop _ h
  · rw [if_neg hc]
    refine .inl ⟨_, rfl, ?_, rfl⟩
    simp only [hlive, Bool.true_and, bne_iff_ne, ne_eq]
    exact fun h => hc (htop _ h)

/-- An instruction that does not leave its method goes on where its ways say that it can. -/
theorem Executes.goesOn (h : Executes Γ s i w) (hlive : s.live = true)
    (htop : ∀ c, s.top = some c → m.stack.head? = some (.bool c)) (hm : m.frames = f :: fs)
    (hi : ¬(i.op = .ret ∨ i.op = .retVoid)) :
    (execute p i f.ip (f.ip + i.width) (m.goTo (f.ip + i.width))).GoesOn (Onward i w f fs) := by
  obtain ⟨frames, stack, fields, statics, sink⟩ := m
  obtain rfl := hm
  cases h with
  | constant => exact pushSlot_goesOn fun _ => .on hlive
  | getLocal => exact pushSlot_goesOn fun _ => .on hlive
  | getField => exact pushSlot_goesOn fun _ => .on hlive
  | getStatic => exact pushSlot_goesOn fun _ => .on hlive
  | dup => exact pushSlot_goesOn fun _ => .on hlive
  | pushTrue => exact .on hlive rfl
  | pushFalse => exact .on hlive rfl
  | pop => exact pop_goesOn fun _ _ _ => .on hlive rfl
  | @setLocal n =>
    change Step.GoesOn _ (Machine.pop _ f.ip fun v m => m.setLocal f.ip n v)
    refine pop_goesOn fun _ _ _ => setLocal_goesOn rfl fun _ _ hm => ?_
    exact ⟨_, _, .inl hm, .inl ⟨_, rfl, hlive, rfl⟩⟩
  | @setField n =>
    change Step.GoesOn _ (Machine.pop _ f.ip fun v m => m.setField f.ip n v)
    exact pop_goesOn fun _ _ _ => setField_goesOn fun _ => .on hlive
  | @setStatic n =>
    change Step.GoesOn _ (Machine.pop _ f.ip fun v m => m.setStatic f.ip n v)
    exact pop_goesOn fun _ _ _ => setStatic_goesOn fun _ => .on hlive
  | unary h =>
    rw [execute_unary h]
    exact pop_goesOn fun _ _ _ => pushResult_goesOn fun _ => .on hlive
  | binary h =>
    rw [execute_binary h]
    exact pop_goesOn fun _ _ _ => pop_goesOn fun _ _ _ => pushResult_goesOn fun _ => .on hlive
  | jump => exact ⟨_, _, .inl rfl, .inr ⟨s, rfl, hlive, rfl⟩⟩
  | @loop d =>
    change Step.GoesOn _ (if d ≤ f.ip + 3 then _ else _)
    by_cases hd : d ≤ f.ip + 3
    · rw [if_pos hd]
      exact ⟨_, _, .inl rfl, .inr ⟨s, rfl, hlive, congrArg some (if_pos hd)⟩⟩
    · rw [if_neg hd]
      trivial
  | jumpIfFalse =>
    refine branch_goesOn rfl fun m' c hc hm => .branch hlive (fun c' hc' => ?_) rfl rfl hm
    cases hc.symm.trans (htop c' hc')
    rfl
  | jumpIfTrue =>
    refine branch_goesOn rfl fun m' c hc hm => .branch hlive (fun c' hc' => ?_) rfl rfl hm
    cases hc.symm.trans (htop c' hc')
    rfl
  | call => exact call_goesOn fun _ _ hm => ⟨_, _, .inr ⟨_, hm⟩, .inl ⟨_, rfl, hlive, rfl⟩⟩
  | callNative => exact callNative_goesOn fun _ => .on hlive
  | ret => exact absurd (.inl rfl) hi
  | retVoid => exact absurd (.inr rfl) hi

/-! ## Statements -/

section

variable {g : MethodImage} {is : Asm} {B : List Layout.Extent} {known : Nat → Option State}
  {e : Layout.Extent}

/-- The code of a statement, with the states in it. -/
theorem Annotated.statement (h : Annotated Γ g is B known) (he : e ∈ B) :
    Contains (Layout.Fragment.ops is) e.start e.code ∧
      Behaves Γ e (window e.start e.code.size known) := by
  obtain ⟨κ, S, hflows⟩ := h.flows
  obtain ⟨-, hcontains, hbehaves⟩ := hflows.marks (e.start, .piece e.code (Behaves Γ e))
    (List.mem_flatMap.mpr ⟨e, he, by simp⟩)
  exact ⟨hcontains, hbehaves⟩

/-- Where a statement cannot be reached, nothing in it can be. -/
theorem Annotated.unreached (h : Annotated Γ g is B known) (he : e ∈ B)
    (hreachable : e.reachable = false) {q : Nat} (hq : e.start ≤ q) (hstop : q < e.stop)
    (hs : known q = some s) : s.live = false := by
  refine ((h.statement he).2.1 hreachable) (q - e.start) s ?_
  unfold Layout.Extent.stop at hstop
  rw [window, if_pos (by omega), Nat.add_sub_cancel' hq, hs]

theorem target?_back {k after q : Nat} (h : Verify.target? i (k + after) = some (some (k + q))) :
    Verify.target? i after = some (some q) := by
  unfold Verify.target? at h ⊢
  split at h
  · simp only [Option.some.injEq] at h ⊢
    omega
  · simp only [Option.some.injEq] at h ⊢
    omega
  · simp only [Option.some.injEq] at h ⊢
    omega
  · simp only [Option.some.injEq] at h ⊢
    split at h
    · simp only [Option.some.injEq] at h
      rw [if_pos (by omega)]
      simp only [Option.some.injEq]
      omega
    · cases h
  · cases h

/-- Where the end of a statement cannot be reached, none of its instructions leads there. -/
theorem Annotated.endless (h : Annotated Γ g is B known) (he : e ∈ B) (hends : e.ends = false)
    {front back : Layout.Fragment} (hcode : e.code = front ++ .op i :: back)
    (hs : known (e.start + front.size) = some s) (hlive : s.live = true) :
    ∃ w, Executes Γ s i w ∧
      (∀ t, w.next = some t → t.live = true → e.start + front.size + i.width ≠ e.stop) ∧
      ∀ t, w.jump = some t → t.live = true →
        Verify.target? i (e.start + front.size + i.width) ≠ some (some e.stop) := by
  have hsize : front.size < e.code.size := by
    have := i.width_pos
    rw [hcode]
    simp only [Layout.Fragment.size_append, Layout.Fragment.size_cons, Layout.Piece.width_op]
    omega
  have hwindow : window e.start e.code.size known front.size = some s := by
    rw [window, if_pos hsize, hs]
  obtain ⟨w, hw, hnext, hjump⟩ := (h.statement he).2.2 hends front i back s hcode hwindow hlive
  refine ⟨w, hw, fun t ht hlive hstop => hnext t ht hlive ?_, fun t ht hlive htarget =>
    hjump t ht hlive ?_⟩
  · unfold Layout.Extent.stop at hstop
    omega
  · rw [Nat.add_assoc] at htarget
    exact target?_back htarget

/-- The instructions of a statement stand in the code of its method. -/
theorem Annotated.decode (h : Annotated Γ g is B known) (he : e ∈ B)
    {front back : Layout.Fragment} (hcode : e.code = front ++ .op i :: back) :
    g.code.decode? (e.start + front.size) = some i := by
  obtain ⟨front', back', his, hsize⟩ := (h.statement he).1 front i back hcode
  obtain ⟨as, rest, rfl, rfl, hrest⟩ := List.map_eq_append_iff.mp his
  obtain ⟨j, bs, rfl, hj, -⟩ := List.map_eq_cons_iff.mp hrest
  cases hj
  change Layout.Fragment.size (Layout.Fragment.ops as) = _ at hsize
  rw [← hsize, Layout.Fragment.size_ops]
  exact Code.decode?_of_spells h.spells

/-- Only methods without a result are left without one. -/
theorem Executes.void_of_retVoid (h : Executes Γ s i w) (hop : i.op = .retVoid) :
    Γ.returns = .void := by
  cases h with
  | retVoid hr => exact hr
  | unary h =>
    cases hop
    simp [Opcode.unaryType?] at h
  | binary h =>
    cases hop
    simp [Opcode.binaryType?, Opcode.arith?, Opcode.order?] at h
  | _ => cases hop

end

/-! ## Runs -/

def Notes.replace {image : Image} {sane : Prop} (N : Notes image sane) (c i : Nat) (n : Note)
    (h : ∀ f, image.method? c i = some f →
      Annotated (contextOf image c f n.types n.loose sane) f n.code n.statements n.known) :
    Notes image sane where
  note c' i' := if c' = c ∧ i' = i then n else N.note c' i'
  annotated c' i' f hf := by
    split
    · next heq =>
      obtain ⟨rfl, rfl⟩ := heq
      exact h f hf
    · exact N.annotated c' i' f hf

end Flow

def Program.Arrives (p : Program) (m : Machine) : Prop :=
  ∃ c j args fields statics sink start stored,
    Machine.enter p c j args (.idle fields statics sink) = .next start ∧
      Machine.Reaches p start [[]] m stored

/-- What is told of the statements of a method is true of its code in every run. -/
structure Program.Confined (p : Program) (c i : Nat) (B : List Layout.Extent) : Prop where
  /-- The instructions of a statement are found where it stands. -/
  decode : ∀ e ∈ B, ∀ (front back : Layout.Fragment) (j : Instruction) (g : MethodImage),
    e.code = front ++ .op j :: back → p.method? c i = some g →
      g.code.decode? (e.start + front.size) = some j
  /-- No machine stands in a statement that cannot be reached. -/
  unreached : ∀ e ∈ B, e.reachable = false → ∀ m f fs, p.Arrives m → m.frames = f :: fs →
    f.cls = c → f.method = i → ¬(e.start ≤ f.ip ∧ f.ip < e.stop)
  /-- No instruction of a statement leads its frame to an end that cannot be reached. -/
  endless : ∀ e ∈ B, e.ends = false → ∀ m m' f f' fs (front back : Layout.Fragment)
    (j : Instruction), p.Arrives m → m.frames = f :: fs → f.cls = c → f.method = i →
      e.code = front ++ .op j :: back → f.ip = e.start + front.size →
        Machine.step p m = .next m' → (m'.frames = f' :: fs ∨ ∃ g, m'.frames = g :: f' :: fs) →
          f'.ip ≠ e.stop

/-- Every machine of a run has an instruction, and a method that has a result is left with one or by
a fault. -/
structure Program.StaysInside (p : Program) : Prop where
  fetch : ∀ m, p.Arrives m → ∃ i, m.fetch? p = some i
  leave : ∀ m f fs g i, p.Arrives m → m.frames = f :: fs → p.method? f.cls f.method = some g →
    g.returns ≠ .void → m.fetch? p = some i →
      (∀ m', Machine.step p m = .next m' → m'.frames = fs → i.op = .ret) ∧
        ∀ v m', Machine.step p m = .done v m' → i.op = .ret

namespace Flow

open Machine

variable {p : Program} {m m' : Machine} {f f' : Frame} {fs : List Frame} {i : Instruction}

structure Known (N : Notes p.image False) (m : Machine) (f : Frame) (g : MethodImage) (s : State)
    (i : Instruction) (w : Ways) : Prop where
  method : p.method? f.cls f.method = some g
  known : (N.note f.cls f.method).known f.ip = some s
  live : s.live = true
  top : ∀ c, s.top = some c → m.stack.head? = some (.bool c)
  executes : Executes (contextOf p.image f.cls g (N.note f.cls f.method).types
    (N.note f.cls f.method).loose False) s i w
  fetch : m.fetch? p = some i

theorem Notes.arrives (N : Notes p.image False) (h : p.Arrives m) :
    ∃ f fs g s i w, m.frames = f :: fs ∧ Known N m f g s i w := by
  obtain ⟨c, j, args, fields, statics, sink, start, stored, henter, hreach⟩ := h
  obtain ⟨returns, hrunning⟩ := N.reaches henter hreach
  cases hrunning with
  | intro hstands htop =>
    obtain ⟨i, w, hw, -, -, hi⟩ := hstands.fetch
    exact ⟨_, _, _, _, i, w, rfl, hstands.method, hstands.known, hstands.live, htop, hw, hi _ rfl⟩

/-- A machine whose frame is known leaves its method by a return, or goes on as it can. -/
theorem Known.goesOn {N : Notes p.image False} {g : MethodImage} {s : State} {w : Ways}
    (h : Known N m f g s i w) (hm : m.frames = f :: fs) (hi : ¬(i.op = .ret ∨ i.op = .retVoid)) :
    (Machine.step p m).GoesOn (Onward i w f fs) := by
  obtain ⟨f', fs', hm', hstep⟩ := step_of_fetch h.fetch
  obtain ⟨rfl, rfl⟩ := List.cons.inj (hm.symm.trans hm')
  rw [hstep]
  exact h.executes.goesOn h.live h.top hm hi

theorem Known.staysInside {N : Notes p.image False} {g : MethodImage} {s : State} {w : Ways}
    (h : Known N m f g s i w) (hm : m.frames = f :: fs) (hg : g.returns ≠ .void) :
    (∀ m', Machine.step p m = .next m' → m'.frames = fs → i.op = .ret) ∧
      ∀ v m', Machine.step p m = .done v m' → i.op = .ret := by
  by_cases hi : i.op = .ret ∨ i.op = .retVoid
  · obtain hi | hi := hi
    · exact ⟨fun _ _ _ => hi, fun _ _ _ => hi⟩
    · exact absurd (h.executes.void_of_retVoid hi) hg
  · have hon := h.goesOn hm hi
    refine ⟨fun m' hstep hframes => ?_, fun v m' hstep => ?_⟩
    · rw [hstep] at hon
      obtain ⟨ip, locals, hframes' | ⟨g', hframes'⟩, -⟩ := hon
      · exact absurd (congrArg List.length (hframes.symm.trans hframes')) (by simp)
      · exact absurd (congrArg List.length (hframes.symm.trans hframes')) (by simp; omega)
    · rw [hstep] at hon
      exact hon.elim

/-- A frame that goes on is told by the frames below it. -/
theorem innermost_unique {f₁ f₂ : Frame}
    (h₁ : m.frames = f₁ :: fs ∨ ∃ g, m.frames = g :: f₁ :: fs)
    (h₂ : m.frames = f₂ :: fs ∨ ∃ g, m.frames = g :: f₂ :: fs) : f₁ = f₂ := by
  obtain h₁ | ⟨g₁, h₁⟩ := h₁ <;> obtain h₂ | ⟨g₂, h₂⟩ := h₂ <;> have h := h₁.symm.trans h₂
  · exact (List.cons.inj h).1
  · simpa using congrArg List.length h
  · simpa using congrArg List.length h
  · exact (List.cons.inj (List.cons.inj h).2).1

theorem Notes.staysInside (N : Notes p.image False) : p.StaysInside where
  fetch m h := by
    obtain ⟨f, fs, g, s, i, w, -, hknown⟩ := N.arrives h
    exact ⟨i, hknown.fetch⟩
  leave m f fs g i h hm hg hvoid hi := by
    obtain ⟨f', fs', g', s, i', w, hm', hknown⟩ := N.arrives h
    obtain ⟨rfl, rfl⟩ := List.cons.inj (hm.symm.trans hm')
    obtain rfl := Option.some.inj (hg.symm.trans hknown.method)
    obtain rfl := Option.some.inj (hi.symm.trans hknown.fetch)
    exact hknown.staysInside hm hvoid

/-- What is known of a method tells where its frames stand. -/
theorem Notes.confined (N : Notes p.image False) (c i : Nat) :
    p.Confined c i (N.note c i).statements where
  decode e he front back j g hcode hg := (N.annotated c i g hg).decode he hcode
  unreached e he hreachable m f fs h hm hc hi := by
    rintro ⟨hstart, hstop⟩
    subst hc hi
    obtain ⟨f', fs', g, s, i, w, hm', hknown⟩ := N.arrives h
    obtain ⟨rfl, rfl⟩ := List.cons.inj (hm.symm.trans hm')
    have hdead := (N.annotated _ _ g hknown.method).unreached he hreachable hstart hstop hknown.known
    rw [hknown.live] at hdead
    cases hdead
  endless e he hends m m' f f' fs front back j h hm hc hi hcode hip hstep hframes := by
    subst hc hi
    obtain ⟨f₀, fs₀, g, s, i, w, hm', hknown⟩ := N.arrives h
    obtain ⟨rfl, rfl⟩ := List.cons.inj (hm.symm.trans hm')
    have hannotated := N.annotated _ _ g hknown.method
    obtain ⟨w', hw', hnext, hjump⟩ :=
      hannotated.endless he hends hcode (hip ▸ hknown.known) hknown.live
    have hj : m.fetch? p = some j := by
      rw [fetch?_eq hm hknown.method, hip]
      exact hannotated.decode he hcode
    obtain rfl := Option.some.inj (hknown.fetch.symm.trans hj)
    have hknown : Known N m f g s i w' := { hknown with executes := hw' }
    by_cases hi : i.op = .ret ∨ i.op = .retVoid
    · obtain ⟨f₁, fs₁, hm₁, hexecute⟩ := step_of_fetch hj
      obtain ⟨rfl, rfl⟩ := List.cons.inj (hm.symm.trans hm₁)
      rw [hexecute] at hstep
      have hlength := congrArg List.length (ret_next (goTo_frames hm) hi hstep)
      obtain hframes | ⟨g', hframes⟩ := hframes
      · simp [hframes] at hlength
      · simp only [hframes, List.length_cons] at hlength
        omega
    · have hon := hknown.goesOn hm hi
      rw [hstep] at hon
      obtain ⟨ip, locals, hframes', hways⟩ := hon
      rw [innermost_unique hframes hframes']
      rw [← hip] at hnext hjump
      obtain ⟨t, ht, hlive, rfl⟩ | ⟨t, ht, hlive, htarget⟩ := hways
      · exact hnext t ht hlive
      · rintro rfl
        exact hjump t ht hlive htarget

/-- The notes of a compiled image can tell of the statements that a method was compiled from. -/
theorem exists_notes_of_statements {s : Symbols} {release : Bool} {image : Image}
    {libraries : List Library} (hs : s.Sound libraries) (h : Layout.LaidImage s release image)
    {c i : Nat} {B : List Layout.Extent} (hB : StatementsAt s release image c i B) :
    ∃ N : Notes image False, (N.note c i).statements = B := by
  have hsane : False → DistinctFunctions libraries ∧ ValueKeywords libraries := False.elim
  obtain ⟨N, -⟩ := exists_notes hs h hsane
  obtain ⟨k, f, g, hk, hf, hg, is, l, hlays, hspells, hlocals⟩ := hB
  obtain ⟨g', hg', hcompiled⟩ := method_of_laid h hk hf
  obtain rfl := Option.some.inj (hg.symm.trans hg')
  obtain ⟨locals, hknown⟩ := annotated_of_lays hs h hk hf hcompiled hlays hspells hlocals
  obtain ⟨known, hknown⟩ := hknown False False.elim
  refine ⟨N.replace c i ⟨locals, f.loose, is, B, known⟩ fun g' hg' => ?_, ?_⟩
  · obtain rfl := Option.some.inj (hg.symm.trans hg')
    exact hknown
  · simp [Notes.replace]

end Flow

/-- A report that a statement cannot be reached is none of the registration. -/
theorem Registration.not_unreachable {libraries : List Library} {usings : List String}
    {script : Script} {d : Diagnostic}
    (h : d ∈ (Registration.ofScript libraries usings script).diagnostics)
    (hfree : d.isBlocking = false) : d.code ≠ "QC0162" := by
  simp only [Registration.ofScript] at h
  obtain h | h := List.mem_append.mp h
  · obtain ⟨name, -, rfl⟩ := List.mem_map.mp h
    simp [Registration.unknownGlobalUsing]
  · obtain ⟨e, -, rfl⟩ := List.mem_map.mp h
    simp [SemanticError.diagnostic, Diagnostic.isBlocking] at hfree

/-- What compiling tells of the statements of a script is true in every run: of the code of each
method, of the warnings about statements that cannot be reached, and of how methods are left. -/
theorem Compilation.reachability {name : String} {options : Options} {libraries : List Library}
    {script : Script} {m : Image} {p : Program}
    (h : (Compilation.ofScript name options libraries script).image = some m) (hp : p.image = m) :
    (∀ c i g, p.method? c i = some g → ∃ B, Flow.StatementsAt
        (Layout.symbolsOf options libraries script) options.release m c i B) ∧
      (∀ c i B, Flow.StatementsAt (Layout.symbolsOf options libraries script) options.release
        m c i B → p.Confined c i B) ∧
      (∀ d ∈ (Compilation.ofScript name options libraries script).diagnostics,
        d.code = "QC0162" → ∃ c i B, Flow.StatementsAt
          (Layout.symbolsOf options libraries script) options.release m c i B ∧
            p.Confined c i B ∧ ∃ e ∈ B, e.Warns d) ∧
      p.StaysInside := by
  subst hp
  have hs := Layout.symbolsOf_sound options libraries script
  obtain ⟨hlaid, hwarned⟩ := Layout.compiled_laid h
  have confined (c i : Nat) (B : List Layout.Extent) (hB : Flow.StatementsAt
      (Layout.symbolsOf options libraries script) options.release p.image c i B) :
      p.Confined c i B := by
    obtain ⟨N, hN⟩ := Flow.exists_notes_of_statements hs hlaid hB
    exact hN ▸ N.confined c i
  have hsane : False → DistinctFunctions libraries ∧ ValueKeywords libraries := False.elim
  obtain ⟨N, -⟩ := Flow.exists_notes hs hlaid hsane
  refine ⟨fun c i g hg => ?_, confined, fun d hd hcode => ?_, N.staysInside⟩
  · exact Flow.exists_statements hlaid hg
  · obtain ⟨hfree, hd⟩ | hmatched := hwarned d hd
    · exact absurd hcode (Registration.not_unreachable hd hfree)
    · obtain ⟨c, i, B, hB, e, he, hwarns⟩ := Flow.statements_of_warned hmatched
      exact ⟨c, i, B, hB, confined c i B hB, e, he, hwarns⟩

/-- The code of the last statement of the sample is never executed, as the warning says. -/
theorem Compilation.reachability_watch :
    (Compilation.ofScript "m" { release := false } [bells] Watch.script).image =
        some (Watch.image false) ∧
      ((Watch.image false).classes[0]!.methods[0]!).code.decode? 47 = some (.plain .pushTrue) ∧
      ∀ ring : Native Unit,
        (∃ c i B, Flow.StatementsAt (Layout.symbolsOf { release := false } [bells] Watch.script) false
            (Watch.image false) c i B ∧
          Program.Confined ⟨Watch.image false, #[ring]⟩ c i B ∧
          ∃ e ∈ B, e.Warns (Compile.unreachableCode {})) ∧
        Program.StaysInside ⟨Watch.image false, #[ring]⟩ := by
  refine ⟨Watch.compiled false, rfl, fun ring => ?_⟩
  obtain ⟨-, -, hwarned, hinside⟩ :=
    Compilation.reachability (p := ⟨Watch.image false, #[ring]⟩) (Watch.compiled false) rfl
  refine ⟨hwarned _ ?_ rfl, hinside⟩
  rw [Watch.ofScript_eq]
  exact List.mem_cons_self

end ClassScript
