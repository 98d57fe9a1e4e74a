/-
  Ways out of blocks.

  The way out of a block does what the last primitive of an instruction does, and
  leads to where the interpreter goes on.

  * `Arrives`: where a block of threaded code ends, and where the interpreter is;
  * `Alongside`: threaded code and the interpreter inside an instruction;
  * `conditional_jump`, `forIter_jump`: where jumps lead;
  * `Exits.meets`: the way out of a block.
-/
import TieredMachine.Proofs.Native.Lag
import TieredMachine.Proofs.Native.Block

namespace TieredMachine

variable {us : Array CodeUnit} {side : Side} {g g' : Guest} {u : CodeUnit} {most : Nat}
  {G : Graph} {h₀ : Heap}

/-! ## Where a block ends -/

/-- Where a block of threaded code ends, and where an interpreter is that has run `j`
    instructions.  It lags behind by at most `most` instructions that only jump, and has run
    at least `least` instructions when control goes on in another block. -/
inductive Arrives (us : Array CodeUnit) (u : CodeUnit) (most : Nat) (G : Graph) (least j : Nat) :
    Threaded.Landing → Activation → Option Exit → Activation → Prop
  | exit {e t t'} : (runWorld us).alike t t' → Arrives us u most G least j (.exit e) t (some e) t'
  | bail {reason n t t'} : n ≤ most → Behind us u n t t' →
      Arrives us u most G least j (.bail reason) t none t'
  | block {b n t t'} : least ≤ j → b < G.blocks.size → n ≤ most →
      Behind us u n ⟨{ t.frame with ip := (G.block b).start }, t.machine⟩ t' →
      Arrives us u most G least j (.block b) t none t'

theorem Arrives.mono {least least' j j' : Nat} (h : least ≤ j → least' ≤ j')
    {l : Threaded.Landing} {t : Activation} {e : Option Exit} {t' : Activation}
    (ha : Arrives us u most G least j l t e t') : Arrives us u most G least' j' l t e t' := by
  cases ha with
  | exit h => exact .exit h
  | bail hn hb => exact .bail hn hb
  | block hj hb hn hbe => exact .block (h hj) hb hn hbe

/-- Frames that are one lag behind by nothing. -/
theorem Behind.same {s s' : Activation} (hs : (runWorld us).alike s s')
    (hc : s'.frame.code = u) : Behind us u 0 s s' where
  code := hc
  frame := by rw [hs.1]
  hops := by rw [hs.1]; exact .here
  machine := hs.2

/-- Control that an edge leads on from where the interpreter stands arrives in the block. -/
theorem Arrives.edge {j : Nat} {b : BlockId} {s s' : Activation} {ip : Nat}
    (hl : G.Leads u most ip b) (hc : s'.frame.code = u) (hip : s'.frame.ip = ip)
    (hf : s.frame = { s'.frame with ip := s.frame.ip })
    (hm : (machineWorld us).alike s.machine s'.machine) :
    Arrives us u most G 0 j (.block b) s none s' := by
  obtain ⟨hb, n, hn, hops⟩ := hl
  refine .block (Nat.zero_le j) hb hn ⟨hc, ?_, ?_, hm⟩
  · rw [hf]
  · rw [hip]
    exact hops

namespace Graph

/-- A block that is found by an index starts there. -/
theorem blockAt?_eq_some (hn : ∀ b (blk : GraphBlock), G.blocks[b]? = some blk → blk.id = b)
    {ip : Nat} {b : BlockId} (h : G.blockAt? ip = some b) :
    b < G.blocks.size ∧ (G.block b).start = ip := by
  obtain ⟨blk, hblk, rfl⟩ := Option.map_eq_some_iff.mp h
  have hmem := Array.mem_of_find?_eq_some hblk
  have hstart := Array.find?_some hblk
  obtain ⟨b, hb⟩ := Array.mem_iff_getElem?.mp hmem
  have hid := hn b blk hb
  rw [hid]
  refine ⟨(Array.getElem?_eq_some_iff.mp hb).1, ?_⟩
  unfold block
  rw [hb]
  simpa using hstart

end Graph

/-- Landing where the interpreter goes on. -/
theorem landed (hn : ∀ b (blk : GraphBlock), G.blocks[b]? = some blk → blk.id = b)
    {x y : FrameExec (Option Exit)} (h : Agrees (runWorld us) side x y) {s s' : Activation}
    (hs : (runWorld us).alike s s') (hc : s'.frame.code = u) :
    Meet (runWorld us) side (Arrives us u most G 0 0) ((x >>= Threaded.landOr G) s) (y s') := by
  rw [← bind_pure y]
  refine (h.agree hs).bind (Threaded.keeps_landOr G) (fun _ => .pure _)
    fun exit t exit' t' _ hy ht => ?_
  obtain ⟨rfl, ht⟩ := ht
  have hc' : t'.frame.code = u := by
    have := (h.right s').1
    rw [hy] at this
    exact this.trans hc
  cases exit with
  | some exit => exact .ok (.exit ht)
  | none =>
    show Meet _ _ _ (Threaded.land G t) (.ok none t')
    rw [Threaded.land_apply]
    cases hb : G.blockAt? t.frame.ip with
    | none => exact .ok (.bail (Nat.zero_le _) (.same ht hc'))
    | some b =>
      obtain ⟨hlt, hstart⟩ := Graph.blockAt?_eq_some hn hb
      refine .ok (.edge ⟨hlt, 0, Nat.zero_le _, ?_⟩ hc' rfl (by rw [ht.1]) ht.2)
      rw [hstart, ht.1]
      exact .here

/-- Following the flow out of a block as the interpreter does. -/
theorem follow_meets (hn : ∀ b (blk : GraphBlock), G.blocks[b]? = some blk → blk.id = b)
    (w : Watch) (flow : Flow) {s s' : Activation} (hs : (runWorld us).alike s s')
    (hc : s'.frame.code = u) :
    Meet (runWorld us) side (Arrives us u most G 0 0) (Threaded.follow G flow s)
      (direct w flow s') := by
  rw [Threaded.follow_eq]
  exact landed hn (Threaded.heading_agrees w flow) hs hc

/-! ## Inside an instruction -/

/-- Threaded code and the interpreter are inside the same instruction. -/
structure Alongside (us : Array CodeUnit) (u : CodeUnit) (h₀ : Heap) (i : Instr)
    (s s' : Activation) : Prop where
  alike : (runWorld us).alike s s'
  code : s'.frame.code = u
  ip : s'.frame.ip = i.next
  evolved : h₀.Evolves s'.machine.heap

theorem keeps_caught_frame (hg : Guests us side g g') (site : Site) (r : Bool) (p : Primitive) :
    Keeps (frameWorld (machineWorld us)) (caught (Primitive.run g' site r p)) :=
  (caught_agrees (primitive_agrees hg site r r p)).right

/-- After a primitive both are inside the instruction still. -/
theorem Alongside.after (hg : Guests us side g g') {i : Instr} {site : Site} {r : Bool}
    {p : Primitive} {flow : Flow} {s s' t t' : Activation} (hs : Alongside us u h₀ i s s')
    (hy : caught (Primitive.run g' site r p) s' = .ok flow t')
    (ht : (runWorld us).alike t t') : Alongside us u h₀ i t t' := by
  obtain ⟨stays, kept⟩ := keeps_caught_frame hg site r p s'
  rw [hy] at stays kept
  exact ⟨ht, stays.code.trans hs.code, stays.ip.trans hs.ip, hs.evolved.trans kept⟩

theorem Alongside.ip_left {i : Instr} {s s' : Activation} (hs : Alongside us u h₀ i s s') :
    s.frame.ip = i.next := by
  rw [hs.alike.1]
  exact hs.ip

/-- Following the flow, and no instruction more. -/
theorem direct_last (g : Guest) (w : Watch) (flow : Flow) :
    (direct w flow >>= fun exit => unlessLeft (turns g w 0) exit) = direct w flow := by
  have : (fun exit => unlessLeft (turns g w 0) exit) = pure := by
    funext exit
    cases exit <;> rfl
  rw [this, bind_pure]

/-- The last primitive of an instruction, and what the flow out of it does. -/
theorem inside_last (g : Guest) (w : Watch) (i : Instr) (k : Nat) (p : Primitive) :
    inside g w i k [p] 0 = (do direct w (← caught (Primitive.run g ⟨i.ip, k⟩ w.recording p))) := by
  rw [inside_cons]
  congr 1
  funext flow
  cases flow with
  | next => rfl
  | _ => exact direct_last g w _

/-- Where no instruction starts the interpreter fails. -/
theorem turns_off (g : Guest) (w : Watch) {s : Activation} {j : Nat}
    (h : s.frame.code.instrAt? s.frame.ip = none) :
    turns g w (j + 1) s = .error (.ipOutOfBounds s.frame.ip) s := by
  have stepped : step g w s = .error (.ipOutOfBounds s.frame.ip) s := by
    unfold step
    rw [bind_apply]
    simp only [show frame s = .ok s.frame s from rfl, h]
    rfl
  rw [turns_succ]
  unfold turn
  rw [bind_apply, stepped]

/-! ## Where jumps lead -/

/-- The flow out of a computation is its answer, or that of an exception that it raises. -/
theorem caught_ok {x : FrameExec Flow} {s t : Activation} {flow : Flow}
    (h : caught x s = .ok flow t) : x s = .ok flow t ∨ ∃ exc, flow = .raise exc true := by
  unfold caught at h
  rw [tryCatch_apply] at h
  cases hx : x s with
  | ok flow u =>
    rw [hx] at h
    exact .inl h
  | error e u =>
    rw [hx] at h
    cases e with
    | raised exc =>
      cases h
      exact .inr ⟨exc, rfl⟩
    | _ => cases h

theorem caught_jump {x : FrameExec Flow} {s t : Activation} {target : Nat}
    (h : caught x s = .ok (.jump target) t) : x s = .ok (.jump target) t := by
  obtain answered | ⟨exc, raised⟩ := caught_ok h
  · exact answered
  · cases raised

namespace Primitive

theorem targetOf_ok {op : Opcode} {arg target : Nat} {s t : Activation}
    (h : targetOf op arg s = .ok target t) :
    Code.jumpTarget? op arg s.frame.ip = some target := by
  unfold targetOf at h
  rw [bind_apply] at h
  simp only [show TieredMachine.frame s = .ok s.frame s from rfl] at h
  cases ht : Code.jumpTarget? op arg s.frame.ip with
  | none =>
    rw [ht] at h
    cases h
  | some x =>
    rw [ht] at h
    cases h
    rfl

/-- A decided jump goes to its target if it is taken. -/
theorem decidedJump_jump {op : Opcode} {truth : Bool} {x target : Nat} {s t : Activation}
    (h : (match decideJump? op truth with
      | none => throw (.runtime (.notConditionalJump op))
      | some (taken, popped) => (do
        if popped then
          let _ ← pop
        return if taken then Flow.jump x else .next) : FrameExec Flow) s = .ok (.jump target) t) :
    x = target := by
  cases hd : decideJump? op truth with
  | none =>
    rw [hd] at h
    cases h
  | some d =>
    obtain ⟨taken, popped⟩ := d
    rw [hd] at h
    have answered {s : Activation} (h : (return if taken then Flow.jump x else .next :
        FrameExec Flow) s = .ok (.jump target) t) : x = target := by
      cases taken with
      | true =>
        cases h
        rfl
      | false => cases h
    dsimp only at h
    split at h
    · obtain ⟨_, _, _, h⟩ := bind_ok.mp h
      exact answered h
    · exact answered h

/-- A conditional jump that jumps goes to its target. -/
theorem testJump_jump {site : Site} {r : Bool} {op : Opcode} {arg target : Nat}
    {s t : Activation} (h : testJump site r op arg s = .ok (.jump target) t) :
    Code.jumpTarget? op arg s.frame.ip = some target := by
  obtain ⟨x, s₁, hx, h⟩ := bind_ok.mp h
  obtain ⟨tested, s₂, _, h⟩ := bind_ok.mp h
  obtain ⟨truth, s₃, _, h⟩ := bind_ok.mp h
  have : x = target := by
    dsimp only at h
    split at h
    · obtain ⟨_, s₄, _, h⟩ := bind_ok.mp h
      exact decidedJump_jump h
    · exact decidedJump_jump h
  rw [← this]
  exact targetOf_ok hx

/-- A conditional jump that jumps goes to its target. -/
theorem conditional_jump {site : Site} {r : Bool} {op : Opcode} {arg target : Nat}
    {s t : Activation}
    (hop : op.isPopJump ∨ op = .jumpIfFalseOrPop ∨ op = .jumpIfTrueOrPop)
    (h : run g site r ⟨op, some arg⟩ s = .ok (.jump target) t) :
    Code.jumpTarget? op arg s.frame.ip = some target := by
  have tests : op = .popJumpIfFalse ∨ op = .popJumpIfTrue ∨ op = .jumpIfFalseOrPop ∨
      op = .jumpIfTrueOrPop := by
    simpa [Opcode.isPopJump, or_assoc] using hop
  rcases tests with rfl | rfl | rfl | rfl <;> exact testJump_jump h

/-- A loop that is over jumps to its target. -/
theorem forIter_jump (hg : Guests us side g g') {arg target : Nat} {s t : Activation}
    (h : forIter g' arg s = .ok (.jump target) t) :
    Code.jumpTarget? .forIter arg s.frame.ip = some target := by
  obtain ⟨it, s₁, h₁, h⟩ := bind_ok.mp h
  obtain ⟨item, s₂, h₂, h⟩ := bind_ok.mp h
  cases item with
  | some item =>
    obtain ⟨_, _, _, h⟩ := bind_ok.mp h
    cases h
  | none =>
    obtain ⟨v, s₃, h₃, h⟩ := bind_ok.mp h
    obtain ⟨x, s₄, h₄, h⟩ := bind_ok.mp h
    cases h
    have stay {α : Type} {x : FrameExec α} {s t : Activation} {a : α}
        (hx : Keeps (frameWorld (machineWorld us)) x) (h : x s = .ok a t) : t.frame.ip = s.frame.ip := by
      have := (hx s).1.ip
      rw [h] at this
      exact this
    have peeked := stay ((peek_agrees 0 : Agrees (frameWorld (machineWorld us)) side _ _).left) h₁
    have advanced := stay ((lift_agrees (advance?_agrees hg.serves it)).right) h₂
    have popped := stay ((pop_agrees : Agrees (frameWorld (machineWorld us)) side _ _).left) h₃
    rw [← peeked, ← advanced, ← popped]
    exact targetOf_ok h₄

/-- An unwinding primitive does not hand on to the next one. -/
theorem isUnwinding_next {site : Site} {r : Bool} {p : Primitive} (hp : p.op.isUnwinding)
    {s t : Activation} : caught (run g site r p) s ≠ .ok .next t := by
  obtain ⟨op, arg⟩ := p
  have never {x : FrameExec Flow} (hx : ∀ t, x s ≠ .ok .next t) : caught x s ≠ .ok .next t := by
    unfold caught
    rw [tryCatch_apply]
    cases h : x s with
    | ok flow u =>
      intro e
      cases e
      exact hx _ h
    | error e u => cases e <;> exact fun e => nomatch e
  apply never
  have hop : op = .raiseVarargs ∨ op = .breakLoop ∨ op = .continueLoop := by
    simpa [Opcode.isUnwinding, or_assoc] using hp
  rcases hop with rfl | rfl | rfl
  · cases arg with
    | none => exact fun t h => nomatch h
    | some count =>
      show ∀ t, raiseOf count s ≠ .ok .next t
      intro t h
      match count with
      | 0 =>
        obtain ⟨f, u, _, h⟩ := bind_ok.mp h
        cases hexc : f.excInfo with
        | some exc =>
          rw [hexc] at h
          cases h
        | none =>
          rw [hexc] at h
          cases h
      | 1 =>
        obtain ⟨_, _, _, h⟩ := bind_ok.mp h
        obtain ⟨_, _, _, h⟩ := bind_ok.mp h
        cases h
      | 2 =>
        obtain ⟨_, _, _, h⟩ := bind_ok.mp h
        obtain ⟨_, _, _, h⟩ := bind_ok.mp h
        obtain ⟨_, _, _, h⟩ := bind_ok.mp h
        cases h
      | n + 3 => cases h
  · exact fun t h => nomatch h
  · cases arg with
    | none => exact fun t h => nomatch h
    | some target => exact fun t h => nomatch h

end Primitive

/-! ## Ways out -/

/-- A branch of the interpreter's last primitive: what is left of it once the flow is
    known. -/
theorem Exits.meets (hf : Faithful u h₀ most G) (hg : Guests us side g g') (w : Watch) {i : Instr}
    {k : Nat} {p : Primitive} {t : Terminator} (h : Exits u (G.Leads u most) i k p t)
    {s s' : Activation} (hs : Alongside us u h₀ i s s') :
    ∃ j ≤ 1, Meet (runWorld us) side (Arrives us u most G 0 j) (Threaded.leaveBlock g G t s)
      (inside g' w i k [p] j s') := by
  have run (p : Primitive) := caught_agree
    ((primitive_agrees hg ⟨i.ip, k⟩ false w.recording p).inRun.agree hs.alike)
  have last (f : Flow → FrameExec Threaded.Landing) (hk : ∀ flow, Keeps (runWorld us) (f flow))
      (p : Primitive)
      (hmeet : ∀ flow t t', caught (Primitive.run g' ⟨i.ip, k⟩ w.recording p) s' = .ok flow t' →
        Alongside us u h₀ i t t' → Meet (runWorld us) side (Arrives us u most G 0 0) (f flow t)
          (direct w flow t')) :
      ∃ j ≤ 1, Meet (runWorld us) side (Arrives us u most G 0 j)
        ((caught (Primitive.run g ⟨i.ip, k⟩ false p) >>= f) s) (inside g' w i k [p] j s') := by
    refine ⟨0, Nat.zero_le _, ?_⟩
    rw [inside_last]
    refine (run p).bind hk (fun flow => ?_) fun flow t flow' t' hx hy ht => ?_
    · have := (direct_agrees w w flow : Agrees (runWorld us) side _ _)
      exact this.right
    · obtain ⟨rfl, ht⟩ := ht
      exact hmeet flow t t' hy (hs.after hg hy ht)
  have follows (flow : Flow) : Keeps (runWorld us) (Threaded.follow G flow) :=
    Threaded.keeps_follow G flow
  cases h with
  | @goto _ target b hj ht hb =>
    refine ⟨0, Nat.zero_le _, ?_⟩
    have jumped := Primitive.run_jump g' ⟨i.ip, k⟩ w.recording (s := s') hj (by rw [hs.ip]; exact ht)
    have flow : caught (Primitive.run g' ⟨i.ip, k⟩ w.recording p) s' = .ok (.jump target) s' := by
      unfold caught
      rw [tryCatch_apply, jumped]
    obtain ⟨m, hm, hd⟩ := direct_jump us w target s'
    rw [inside_last, bind_apply, flow]
    dsimp only
    rw [hd]
    exact .ok (.edge hb hs.code rfl (by rw [hs.alike.1]) (hm.alike_right hs.alike.2))
  | @branch op arg target taken fallthrough hop ht htaken hnext =>
    refine last _ (fun flow => ?_) ⟨op, some arg⟩ fun flow t t' hy hs' => ?_
    · cases flow with
      | next => exact .pure _
      | jump x => exact .pure _
      | _ => exact follows _
    · cases flow with
      | next => exact .ok (.edge hnext hs'.code hs'.ip (by rw [hs'.alike.1]) hs'.alike.2)
      | jump x =>
        have tests : op.isPopJump ∨ op = .jumpIfFalseOrPop ∨ op = .jumpIfTrueOrPop := hop
        have hx := Primitive.conditional_jump (hop.imp_left id) (caught_jump hy)
        rw [hs.ip, ht] at hx
        obtain ⟨m, hm, hd⟩ := direct_jump us w x t'
        rw [hd]
        exact .ok (.edge htaken hs'.code (Option.some.inj hx).symm (by rw [hs'.alike.1])
          (hm.alike_right hs'.alike.2))
      | _ => exact follow_meets hf.numbered w _ hs'.alike hs'.code
  | @speculate op arg target expected next hop ht hnext =>
    refine last _ (fun flow => ?_) ⟨op, some arg⟩ fun flow t t' hy hs' => ?_
    · cases flow with
      | next => exact .pure _
      | jump x =>
        dsimp only
        split
        · exact .pure _
        · exact (Threaded.keeps_moveTo x).bind fun _ => .pure _
      | _ => exact follows _
    · cases flow with
      | next =>
        show Meet _ _ _ (.ok (if (op == .popJumpIfTrue) == expected then
          Threaded.Landing.bail .guardFail else Threaded.Landing.block next) t) _
        split
        · exact .ok (.bail (Nat.zero_le _) (.same hs'.alike hs'.code))
        · rename_i hj
          rw [if_neg hj] at hnext
          exact .ok (.edge hnext hs'.code hs'.ip (by rw [hs'.alike.1]) hs'.alike.2)
      | jump x =>
        have hx := Primitive.conditional_jump (.inl hop) (caught_jump hy)
        rw [hs.ip, ht] at hx
        obtain ⟨m, hm, hd⟩ := direct_jump us w x t'
        rw [hd]
        have moved : (runWorld us).alike ⟨{ t.frame with ip := x }, t.machine⟩
            ⟨{ t'.frame with ip := x }, m⟩ :=
          ⟨by rw [hs'.alike.1], hm.alike_right hs'.alike.2⟩
        dsimp only
        split
        · rename_i hj
          rw [if_pos hj] at hnext
          exact .ok (.edge hnext hs'.code (Option.some.inj hx).symm (by rw [hs'.alike.1])
            (hm.alike_right hs'.alike.2))
        · exact .ok (.bail (Nat.zero_le _) (.same moved hs'.code))
      | _ => exact follow_meets hf.numbered w _ hs'.alike hs'.code
  | @forIter arg target body exit ht hbody hexit =>
    refine last _ (fun flow => ?_) ⟨.forIter, some arg⟩ fun flow t t' hy hs' => ?_
    · cases flow with
      | next => exact .pure _
      | jump x => exact .pure _
      | _ => exact follows _
    · cases flow with
      | next => exact .ok (.edge hbody hs'.code hs'.ip (by rw [hs'.alike.1]) hs'.alike.2)
      | jump x =>
        have hx := Primitive.forIter_jump hg (caught_jump hy)
        rw [hs.ip, ht] at hx
        obtain ⟨m, hm, hd⟩ := direct_jump us w x t'
        rw [hd]
        exact .ok (.edge hexit hs'.code (Option.some.inj hx).symm (by rw [hs'.alike.1])
          (hm.alike_right hs'.alike.2))
      | _ => exact follow_meets hf.numbered w _ hs'.alike hs'.code
  | return_ =>
    exact last _ follows ⟨.returnValue, none⟩
      fun flow t t' _ hs => follow_meets hf.numbered w flow hs.alike hs.code
  | yield_ =>
    exact last _ follows ⟨.yieldValue, none⟩
      fun flow t t' _ hs => follow_meets hf.numbered w flow hs.alike hs.code
  | unwind hb =>
    refine last _ (fun flow => ?_) p fun flow t t' hy hs' => ?_
    · cases flow with
      | next => exact .pure _
      | _ => exact follows _
    · cases flow with
      | next => exact .ok (.edge hb hs'.code hs'.ip (by rw [hs'.alike.1]) hs'.alike.2)
      | _ => exact follow_meets hf.numbered w _ hs'.alike hs'.code
  | unwindOff hoff =>
    rcases hoff with hoff | ⟨-, hoff⟩
    · refine last _ (fun flow => ?_) p fun flow t t' hy hs' => ?_
      · cases flow with
        | next => exact keeps_frame.inRun.bind fun f => .throw _
        | _ => exact follows _
      · cases flow with
        | next => exact absurd hy (Primitive.isUnwinding_next hoff)
        | _ => exact follow_meets hf.numbered w _ hs'.alike hs'.code
    · simp only [inside_cons]
      refine (run p).bindWithin (fun flow => ?_) (fun j flow => ?_) fun flow t flow' t' hx hy ht => ?_
      · cases flow with
        | next => exact keeps_frame.inRun.bind fun f => .throw _
        | _ => exact follows _
      · exact keeps_insideAfter hg w i k [] j flow
      · obtain ⟨rfl, ht⟩ := ht
        have hs' := hs.after hg hy ht
        have gone : Meet (runWorld us) side (Arrives us u most G 0 0) _ _ :=
          follow_meets hf.numbered w flow hs'.alike hs'.code
        cases flow with
        | next =>
          refine ⟨1, Nat.le_refl 1, ?_⟩
          have off := turns_off g' w (s := t') (j := 0) (by rw [hs'.code, hs'.ip]; exact hoff)
          show Meet _ _ _ (.error (.ipOutOfBounds t.frame.ip) t) (turns g' w 1 t')
          rw [off, hs'.ip_left, hs'.ip]
          exact .error ((runWorld us).failed_of_alike hs'.alike)
        | _ =>
          refine ⟨0, Nat.zero_le _, ?_⟩
          rw [← direct_last g' w] at gone
          exact gone

end TieredMachine
