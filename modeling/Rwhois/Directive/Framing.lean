import Rwhois.Directive.Builtin
import Rwhois.Wire.RoundTrip

/-!
# Directive — Framing

What the built-in directives write. As long as the handlers append through
the methods of the writer, with texts that hold no CR and no LF, the
response stays a list of such lines, and the text of an error is one line
(`Builtin.run_keeps`).

Besides the arguments of the directive, `-status` and `-display` print two
texts of the SESSION. The directives put only arguments there, but the
handler of `-security` is lent the session and can put anything there:
`AuthHandler.KeepsTexts` rules this out.
-/

namespace Rwhois

open RustStd

variable {ω : Type}

/-! ## Clean texts -/

/-- What an error shows of itself on the wire. -/
def Error.Clean : Error → Prop
  | .protocol code message => IsLine code.message ∧ IsLine message
  | _ => True

/-- A response that was written with clean calls. -/
def ResponseWriter.Clean (self : ResponseWriter) : Prop :=
  ∃ ops, (∀ op ∈ ops, WriterOp.Clean op) ∧ self = WriterOp.runAll ops .new

theorem ResponseWriter.Clean.new : ResponseWriter.new.Clean := ⟨[], by simp, rfl⟩

theorem ResponseWriter.Clean.runAll {out : ResponseWriter} (h : out.Clean) {ops : List WriterOp}
    (hops : ∀ op ∈ ops, op.Clean) : (WriterOp.runAll ops out).Clean := by
  obtain ⟨before, hbefore, rfl⟩ := h
  refine ⟨before ++ ops, ?_, (List.foldl_append ..).symm⟩
  intro op hop
  rcases List.mem_append.mp hop with hop | hop
  · exact hbefore op hop
  · exact hops op hop

/-- The texts of a session that are printed. -/
structure Session.Printable (s : Session) : Prop where
  display : IsLine s.display
  clientVendorId : ∀ v ∈ s.clientVendorId, IsLine v

/-! ## What is asked of the handlers -/

/-- The handler appends through the methods of the writer, and its errors
are clean. -/
def HandlerFuture.Appends (f : HandlerFuture (ResponseWriter × ω)) : Prop :=
  ∀ out world,
    (∃ ops, (∀ op ∈ ops, WriterOp.Clean op) ∧ (f (out, world)).2.1 = WriterOp.runAll ops out) ∧
      ∀ e, (f (out, world)).1 = .error e → e.Clean

/-- The same for a handler that is lent the session, which leaves the
state of the session alone. -/
def AuthHandler.Appends (h : AuthHandler ω) : Prop :=
  ∀ args session out world,
    (h.authenticate args (session, out, world)).2.1.state = session.state ∧
      (∃ ops, (∀ op ∈ ops, WriterOp.Clean op) ∧
        (h.authenticate args (session, out, world)).2.2.1 = WriterOp.runAll ops out) ∧
      ∀ e, (h.authenticate args (session, out, world)).1 = .error e → e.Clean

/-- A registration handler: only `finish` is lent the response. -/
structure RegisterHandler.Appends (h : RegisterHandler ω) : Prop where
  begin : ∀ action email args world e, (h.begin action email args world).1 = .error e → e.Clean
  acceptLine : ∀ line world e, (h.acceptLine line world).1 = .error e → e.Clean
  finish : HandlerFuture.Appends h.finish

/-- All handlers of a context. -/
structure ServerContext.Appends (ctx : ServerContext ω) : Prop where
  query : ∀ h ∈ ctx.query, ∀ q, (h.handle q).Appends
  cls : ∀ p ∈ ctx.cls, ∀ area classes, (p.list area classes).Appends
  schema : ∀ p ∈ ctx.schema, ∀ area classes, (p.list area classes).Appends
  soa : ∀ p ∈ ctx.soa, ∀ areas, (p.list areas).Appends
  xfer : ∀ p ∈ ctx.xfer, ∀ args, (p.xfer args).Appends
  register : ∀ h ∈ ctx.register, h.Appends
  referral : ∀ p ∈ ctx.referral, ∀ q, (p.referrals q).Appends
  auth : ∀ h ∈ ctx.auth, h.Appends

theorem ServerContext.Appends.new : (ServerContext.new : ServerContext ω).Appends := by
  constructor <;> rintro h ⟨⟩

theorem RegisterHandler.Appends.accepting : (RegisterHandler.accepting : RegisterHandler ω).Appends where
  begin := by rintro _ _ _ _ e ⟨⟩
  acceptLine := by rintro _ _ e ⟨⟩
  finish := fun _ _ => ⟨⟨[], by simp, rfl⟩, by rintro e ⟨⟩⟩

/-- An auth handler that puts no CR and no LF into what is printed. -/
def AuthHandler.KeepsTexts (h : AuthHandler ω) : Prop :=
  ∀ args (lent : Session × ResponseWriter × ω), lent.1.Printable →
    (h.authenticate args lent).2.1.Printable

/-! ## What a directive keeps -/

/-- The environment of a line that has been written cleanly so far. In
spool state there is a handler for the lines. -/
structure Env.Framed (ctx : ServerContext ω) (env : Env ω) : Prop where
  session : env.session.Printable
  spool : env.session.state = .spool → ctx.register.isSome = true
  out : env.out.Clean

/-- The call keeps to the format, whether it succeeds or fails. -/
abbrev KeepsFraming {α : Type} (ctx : ServerContext ω) (x : Exec (Env ω) Error α) : Prop :=
  Exec.Keeps (Env.Framed ctx) Error.Clean x

section Calls

variable {ctx : ServerContext ω}

theorem KeepsFraming.emit (op : WriterOp) (hop : op.Clean) :
    KeepsFraming ctx (Env.emit op.run) := by
  apply Exec.Keeps.modify
  intro env henv
  have hops : ∀ o ∈ [op], o.Clean := by simpa using hop
  exact ⟨henv.session, henv.spool, henv.out.runAll hops⟩

theorem KeepsFraming.write {f : HandlerFuture (ResponseWriter × ω)} (h : f.Appends) :
    KeepsFraming ctx (Env.write f) := by
  apply Exec.Keeps.callOn
  intro env henv
  obtain ⟨⟨ops, hops, hout⟩, herr⟩ := h env.out env.world
  refine ⟨⟨henv.session, henv.spool, ?_⟩, herr⟩
  show (f (env.out, env.world)).2.1.Clean
  rw [hout]
  exact henv.out.runAll hops

theorem KeepsFraming.ask {f : HandlerFuture ω}
    (h : ∀ world e, (f world).1 = .error e → e.Clean) : KeepsFraming ctx (Env.ask f) := by
  apply Exec.Keeps.callOn
  intro env henv
  exact ⟨⟨henv.session, henv.spool, henv.out⟩, h env.world⟩

theorem KeepsFraming.setSession {f : Session → Session}
    (hprint : ∀ s : Session, s.Printable → (f s).Printable)
    (hspool : ∀ s : Session, (s.state = .spool → ctx.register.isSome = true) →
      (f s).state = .spool → ctx.register.isSome = true) :
    KeepsFraming ctx (Env.setSession f) := by
  apply Exec.Keeps.modify
  intro env henv
  exact ⟨hprint _ henv.session, hspool _ henv.spool, henv.out⟩

/-- A setting that is neither printed as a text nor the state. -/
theorem KeepsFraming.setField {f : Session → Session} (hdisplay : ∀ s, (f s).display = s.display)
    (hvendor : ∀ s, (f s).clientVendorId = s.clientVendorId) (hstate : ∀ s, (f s).state = s.state) :
    KeepsFraming ctx (Env.setSession f) := by
  apply KeepsFraming.setSession
  · intro s hs
    refine ⟨?_, ?_⟩
    · rw [hdisplay]
      exact hs.display
    · rw [hvendor]
      exact hs.clientVendorId
  · intro s hs
    rw [hstate]
    exact hs

end Calls

/-- The banner is printed with `raw_line`, which comes to the same as a
tagged line. -/
theorem ResponseWriter.rawLine_banner (out : ResponseWriter) (banner : Banner) :
    out.rawLine banner.toLine = out.tagged .rwhois banner.body := by
  have hbody : banner.body ≠ [] := by simp [Banner.body]
  have hword : "%rwhois ".toList = Tag.rwhois.asStr ++ [' '] := by decide
  have hline : banner.toLine = tagLine Tag.rwhois.asStr banner.body := by
    unfold Banner.toLine tagLine
    rw [if_neg hbody, hword]
    -- the literal is kept closed
    generalize Tag.rwhois.asStr = token
    simp
  rw [ResponseWriter.tagged_eq, ResponseWriter.rawLine, ResponseWriter.put_put, hline]

namespace Builtin

variable {ctx : ServerContext ω} {args : Str}

theorem switch_keeps {name : Str} {set : Bool → Session → Session} (hname : IsLine name)
    (hargs : IsLine args) (hset : ∀ on, KeepsFraming ctx (Env.setSession (set on))) :
    KeepsFraming ctx (switch name set args) := by
  have hother := hargs.trim.toAsciiLowercase
  unfold switch
  generalize toAsciiLowercase (trim args) = other at hother
  have hsep : IsLine ": ".toList := by decide
  simp only
  split
  · exact (hset true).bind fun _ => .pure _
  · split
    · exact (hset false).bind fun _ => .pure _
    · exact .throw ⟨by decide, (hname.append hsep).append hother⟩

theorem Limit.keeps (hargs : IsLine args) : KeepsFraming ctx (Limit.run args) := by
  have hword : IsLine "limit: ".toList := by decide
  unfold Limit.run
  cases parseUsize (trim args) with
  | none => exact .throw ⟨by decide, hword.append hargs⟩
  | some n =>
      refine Exec.Keeps.bind ?_ fun _ => .pure _
      exact KeepsFraming.setField (fun _ => rfl) (fun _ => rfl) fun _ => rfl

theorem Display.keeps (hargs : IsLine args) : KeepsFraming ctx (Display.run args) := by
  have hname := hargs.trim
  unfold Display.run
  generalize trim args = name at hname
  simp only
  split
  · apply Exec.Keeps.get_bind
    intro env henv
    have hbody : IsLine ("name:".toList ++ env.session.display) := by
      have hword : IsLine "name:".toList := by decide
      exact hword.append henv.session.display
    exact (KeepsFraming.emit (.tagged .display _) hbody).bind fun _ =>
      (KeepsFraming.emit (.endBlock .display) trivial).bind fun _ => .pure _
  · split
    · refine Exec.Keeps.bind (KeepsFraming.setSession ?_ fun _ h => h) fun _ => .pure _
      intro s hs
      exact ⟨(by decide : IsLine "dump".toList), hs.clientVendorId⟩
    · have hword : IsLine "display: ".toList := by decide
      exact .throw ⟨by decide, hword.append hname⟩

theorem isLine_onOff (b : Bool) : IsLine (onOff b) := by
  cases b <;> decide

theorem Status.keeps : KeepsFraming ctx (Status.run : Exec (Env ω) Error DirectiveOutcome) := by
  have hlimit : IsLine "limit:".toList := by decide
  have hhold : IsLine "hold:".toList := by decide
  have hforward : IsLine "forward:".toList := by decide
  have hdisplay : IsLine "display:".toList := by decide
  have hcontact : IsLine "contact:".toList := by decide
  apply Exec.Keeps.get_bind
  intro env henv
  have hvendor : IsLine (env.session.clientVendorId.getD []) := by
    cases hv : env.session.clientVendorId with
    | none => exact .nil
    | some v => exact henv.session.clientVendorId v hv
  exact
    (KeepsFraming.emit (.tagged .status _) (hlimit.append (isLine_display _))).bind fun _ =>
    (KeepsFraming.emit (.tagged .status _) (hhold.append (isLine_onOff _))).bind fun _ =>
    (KeepsFraming.emit (.tagged .status _) (hforward.append (isLine_onOff _))).bind fun _ =>
    (KeepsFraming.emit (.tagged .status _) (hdisplay.append henv.session.display)).bind fun _ =>
    (KeepsFraming.emit (.tagged .status _) (hcontact.append hvendor)).bind fun _ =>
    (KeepsFraming.emit (.endBlock .status) trivial).bind fun _ => .pure _

theorem isLine_banner (hhost : IsLine ctx.hostname) : IsLine ctx.banner.body := by
  refine Banner.isLine_body_single hhost _ _ _ ?_
  rintro i ⟨⟩
  decide

theorem rwhois_keeps (hhost : IsLine ctx.hostname) (hargs : IsLine args) :
    KeepsFraming ctx (Rwhois.run ctx args) := by
  have hbody := isLine_banner hhost
  unfold Rwhois.run
  refine Exec.Keeps.bind (KeepsFraming.setSession ?_ ?_) fun _ => ?_
  · intro s hs
    split
    · exact hs
    · exact ⟨hs.display, by rintro v ⟨⟩; exact hargs.trim⟩
  · intro s hs
    split <;> exact hs
  · simp only [ResponseWriter.rawLine_banner]
    exact (KeepsFraming.emit (.tagged .rwhois _) hbody).bind fun _ => .pure _

/-! ### Listings -/

-- a literal is its list of characters; evaluating `toList` instead takes seconds
theorem isLine_name (b : Builtin) : IsLine b.name := by
  cases b <;> (dsimp only [name]; rw [String.toList_ofList]; decide)

theorem isLine_description (b : Builtin) : IsLine b.description := by
  cases b <;> (dsimp only [description]; rw [String.toList_ofList]; decide)

theorem DirectiveList.entry_keeps (hdir : ctx.directives = .withBuiltins) (name : Str) :
    KeepsFraming ctx (DirectiveList.entry ctx name) := by
  have hname : IsLine "Directive:".toList := by decide
  have hdescription : IsLine "Description:".toList := by decide
  unfold DirectiveList.entry
  rw [hdir, Registry.get_withBuiltins]
  cases Builtin.ofName name with
  | none => exact .pure ()
  | some b =>
      refine (KeepsFraming.emit (.tagged .directive _) (hname.append b.isLine_name)).bind fun _ => ?_
      split
      · exact .pure ()
      · exact KeepsFraming.emit (.tagged .directive _) (hdescription.append b.isLine_description)

theorem DirectiveList.keeps (hdir : ctx.directives = .withBuiltins) :
    KeepsFraming ctx (DirectiveList.run ctx) :=
  Exec.Keeps.bind (.forM fun name _ => DirectiveList.entry_keeps hdir name) fun _ =>
    (KeepsFraming.emit (.endBlock .directive) trivial).bind fun _ => .pure _

theorem provided_keeps {π : Type} {name : Str} (hname : IsLine name) (tag : Tag)
    {provider : Option π} {list : π → HandlerFuture (ResponseWriter × ω)}
    (h : ∀ p ∈ provider, (list p).Appends) :
    KeepsFraming ctx (provided name tag (provider.map list)) := by
  cases provider with
  | none => exact .throw ⟨by decide, hname⟩
  | some p =>
      exact (KeepsFraming.write (h p rfl)).bind fun _ =>
        (KeepsFraming.emit (.endBlock tag) trivial).bind fun _ => .pure _

/-! ### Handlers that change the session -/

theorem Security.keeps (hctx : ctx.Appends) (htexts : ∀ h ∈ ctx.auth, h.KeepsTexts) :
    KeepsFraming ctx (Security.run ctx args) := by
  unfold Security.run
  cases hauth : ctx.auth with
  | none => exact .throw ⟨by decide, by decide⟩
  | some h =>
      refine Exec.Keeps.bind (.callOn ?_) fun _ => .pure _
      intro env henv
      obtain ⟨hstate, ⟨ops, hops, hout⟩, herr⟩ :=
        hctx.auth h hauth args env.session env.out env.world
      refine ⟨⟨htexts h hauth args _ henv.session, ?_, ?_⟩, herr⟩
      · intro hspool
        exact henv.spool (hstate.symm.trans hspool)
      · show (h.authenticate args (env.session, env.out, env.world)).2.2.1.Clean
        rw [hout]
        exact henv.out.runAll hops

theorem Register.on_keeps {h : RegisterHandler ω} (hreg : ctx.register = some h) (hh : h.Appends)
    (parts : List Str) : KeepsFraming ctx (Register.on h parts) := by
  unfold Register.on
  simp only
  split
  · exact .throw ⟨by decide, by decide⟩
  · refine (KeepsFraming.ask fun world e he => hh.begin _ _ _ world e he).bind fun _ => ?_
    refine Exec.Keeps.bind (KeepsFraming.setSession ?_ ?_) fun _ => .pure _
    · exact fun s hs => ⟨hs.display, hs.clientVendorId⟩
    · intro s hs hspool
      rw [hreg]
      rfl

theorem Register.off_keeps {h : RegisterHandler ω} (hh : h.Appends) :
    KeepsFraming ctx (Register.off h) := by
  refine (KeepsFraming.write hh.finish).bind fun _ => ?_
  refine Exec.Keeps.bind (KeepsFraming.setSession ?_ ?_) fun _ => .pure _
  · exact fun s hs => ⟨hs.display, hs.clientVendorId⟩
  · rintro s hs ⟨⟩

theorem Register.keeps (hctx : ctx.Appends) : KeepsFraming ctx (Register.run ctx args) := by
  unfold Register.run
  simp only
  cases hreg : ctx.register with
  | none => exact .throw ⟨by decide, by decide⟩
  | some h =>
      have hh := hctx.register h hreg
      simp only
      split
      · exact Register.on_keeps hreg hh _
      · split
        · exact Register.off_keeps hh
        · exact .throw ⟨by decide, by decide⟩

/-- **Every built-in directive keeps to the format.** -/
theorem run_keeps (hdir : ctx.directives = .withBuiltins) (hhost : IsLine ctx.hostname)
    (hctx : ctx.Appends) (htexts : ∀ h ∈ ctx.auth, h.KeepsTexts) (hargs : IsLine args)
    (b : Builtin) : KeepsFraming ctx (b.run ctx args) := by
  cases b with
  | quit => exact .pure _
  | notify => exact .pure _
  | limit => exact Limit.keeps hargs
  | display => exact Display.keeps hargs
  | status => exact Status.keeps
  | rwhois => exact rwhois_keeps hhost hargs
  | directiveList => exact DirectiveList.keeps hdir
  | register => exact Register.keeps hctx
  | security => exact Security.keeps hctx htexts
  | holdConnect =>
      exact switch_keeps (by decide) hargs fun _ =>
        KeepsFraming.setField (fun _ => rfl) (fun _ => rfl) fun _ => rfl
  | forward =>
      exact switch_keeps (by decide) hargs fun _ =>
        KeepsFraming.setField (fun _ => rfl) (fun _ => rfl) fun _ => rfl
  | cls => exact provided_keeps (by decide) _ fun p hp => hctx.cls p hp _ _
  | schema => exact provided_keeps (by decide) _ fun p hp => hctx.schema p hp _ _
  | soa => exact provided_keeps (by decide) _ fun p hp => hctx.soa p hp _
  | xfer => exact provided_keeps (by decide) _ fun p hp => hctx.xfer p hp _

end Builtin

end Rwhois
