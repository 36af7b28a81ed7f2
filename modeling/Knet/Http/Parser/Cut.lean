import Knet.Http.Parser.Refine

/-!
# How a stream is cut

A stream is given to `http_parser_execute` in pieces, and where it is cut is of no importance
(`executeAll_settles`). A piece of a name, a value or a body that goes on in the next call is
reported in two pieces, so that what is compared is what the calls say when such pieces are put
together.

Of the marks of the code those of the lines of a head are set again at the beginning of a call. That
of a body is not, but it is set as soon as there is a byte of the body (`feed_reset`).
-/

namespace Knet.Http.Parser

open Pieces

section Reset

variable {data rest : List UInt8} {mark : Option Kind} {tr : List Call} {p : Parser} {ch : UInt8}

theorem begun_eq (h : p.Ready p.state.mark tr) : begun push p tr = tr := by
  rw [begun]
  cases hmark : p.state.mark with
  | none => rfl
  | some kind => exact push_data_nil (h.endsIn kind hmark)

theorem Ready.reset (h : p.Ready mark tr) : p.Ready p.state.mark tr :=
  ⟨h.sound, .inl rfl, fun kind hkind ↦ h.endsIn kind (h.open'.eq_some hkind)⟩

theorem fed_reset (hsound : p.Sound) (hbody : p.state.inBody = true)
    (hends : EndsIn (.body, 0) tr) :
    (p.byte ch).fed push (some .body) tr ch rest = (p.byte ch).fed push none tr ch rest := by
  have hmarked : ∀ s : Step, (s.after [.mark .body]).fed push (some .body) tr ch rest
      = (s.after [.mark .body]).fed push none tr ch rest := by
    intro s
    rw [fed_after_mark (.inr rfl), fed_after_mark (.inl rfl), opened, opened,
      if_neg (Option.some_ne_none _), if_pos rfl, push_data_nil hends]
  have hbyte : p.byte ch = p.byteStep ch := by
    refine byte_of_not_parsing ?_ hsound.errno
    cases hstate : p.state
    case bodyIdentity | bodyIdentityEof | chunkData | chunkDataAlmostDone => rfl
    all_goals
      rw [hstate] at hbody
      exact absurd hbody Bool.false_ne_true
  rw [hbyte]
  cases hstate : p.state
  case bodyIdentity | chunkData =>
    rw [byteStep, hstate]
    exact hmarked _
  case bodyIdentityEof =>
    rw [byteStep, hstate]
    exact hmarked ⟨p, [], .next⟩
  case chunkDataAlmostDone =>
    rw [byteStep, hstate]
    dsimp only
    rw [step, hstate]
    dsimp only [strictCheck]
    split_ifs
    · rfl
    · rfl
  all_goals
    rw [hstate] at hbody
    exact absurd hbody Bool.false_ne_true

/-- **A call begins without the mark of a body**, and that makes no difference. -/
theorem feed_reset (h : p.Ready mark tr) (hdata : data ≠ []) :
    p.feed push mark tr data = p.feed push p.state.mark tr data := by
  obtain ⟨ch, rest, rfl⟩ := List.exists_cons_of_ne_nil hdata
  rcases h.open' with rfl | ⟨rfl, hbody⟩
  · rfl
  · rw [feed_cons, feed_cons, inBody_mark hbody]
    exact fed_reset h.sound hbody (h.endsIn _ rfl)

end Reset

/-! ## One call after the other -/

/-- One call of `http_parser_execute` after the other, up to one that does not take its piece. -/
def executeAll (p : Parser) : List (List UInt8) → Result
  | [] => ⟨p, [], 0⟩
  | piece :: pieces =>
    let r := p.execute piece
    if r.parser.httpErrno ≠ .ok ∨ r.parsed ≠ piece.length then r
    else
      let r' := r.parser.executeAll pieces
      ⟨r'.parser, r.calls ++ r'.calls, r.parsed + r'.parsed⟩

section Cut

variable {tr : List Call} {p : Parser} {pieces : List (List UInt8)}

theorem Settles.append {data data' : List UInt8} {tr' : List Call} {r r' : Result} {fed : Fed}
    (hparsed : r.parsed = data.length) (hcalls : (r.calls.map Prod.snd).foldl push tr = tr')
    (h : Settles push data' tr' r' fed) :
    Settles push (data ++ data') tr ⟨r'.parser, r.calls ++ r'.calls, r.parsed + r'.parsed⟩ fed := by
  have hfoldl : ((r.calls ++ r'.calls).map Prod.snd).foldl push tr
      = (r'.calls.map Prod.snd).foldl push tr' := by
    rw [List.map_append, List.foldl_append, hcalls]
  cases fed with
  | running p mark tr'' =>
    obtain ⟨hparser, hparsed', hcalls', hready⟩ := h
    refine ⟨hparser, ?_, hfoldl.trans hcalls', hready⟩
    rw [hparsed, hparsed', List.length_append]
  | exited p tr'' rest =>
    obtain ⟨hparser, hparsed', hcalls', hleft⟩ := h
    refine ⟨hparser, ?_, hfoldl.trans hcalls', hleft⟩
    rw [hparsed, Nat.add_assoc, hparsed', List.length_append]
  | failed => exact h

theorem eq_nil_of_flatten {pieces : List (List UInt8)} (hpieces : ∀ piece ∈ pieces, piece ≠ [])
    (h : pieces.flatten = []) : pieces = [] :=
  List.eq_nil_iff_forall_not_mem.mpr fun piece hmem ↦
    hpieces piece hmem (List.flatten_eq_nil_iff.mp h piece hmem)

/-- The induction on the pieces. What is carried along is that the report can be gone on with. -/
theorem executeAll_settles (h : p.Ready p.state.mark tr) (hpieces : ∀ piece ∈ pieces, piece ≠ [])
    (hlen : pieces.flatten.length < 2 ^ 31)
    (hrest : ∀ q tr' rest, p.feed push p.state.mark tr pieces.flatten = .exited q tr' rest →
      rest = []) :
    Settles push pieces.flatten tr (p.executeAll pieces)
      (p.feed push p.state.mark tr pieces.flatten) := by
  induction pieces generalizing p tr with
  | nil => exact ⟨rfl, rfl, rfl, h⟩
  | cons piece pieces ih =>
    rw [List.flatten_cons, List.length_append] at hlen
    rw [List.flatten_cons, feed_append] at hrest ⊢
    obtain ⟨hpiece, hpieces⟩ := List.forall_mem_cons.mp hpieces
    have hsettles := execute_settles tr adds_push h.sound hpiece (by omega)
    rw [begun_eq h] at hsettles
    rw [executeAll]
    dsimp only
    cases hfed : p.feed push p.state.mark tr piece with
    | running q mark tr' =>
      rw [hfed] at hsettles hrest
      obtain ⟨hparser, hparsed, hcalls, hready⟩ := hsettles
      rw [if_neg (by rw [hparser, hparsed, hready.sound.errno]; simp), hparser]
      refine Settles.append hparsed hcalls ?_
      by_cases hflatten : pieces.flatten = []
      · obtain rfl := eq_nil_of_flatten hpieces hflatten
        exact ⟨rfl, rfl, rfl, hready⟩
      · have hreset := feed_reset hready hflatten
        dsimp only [Fed.more] at hrest ⊢
        rw [hreset] at hrest ⊢
        exact ih hready.reset hpieces (by omega) hrest
    | exited q tr' rest =>
      rw [hfed] at hsettles hrest
      obtain ⟨hparser, hparsed, hcalls, hok, hupgrade⟩ := hsettles
      obtain ⟨rfl, hflatten⟩ := List.append_eq_nil_iff.mp (hrest q tr' _ rfl)
      obtain rfl := eq_nil_of_flatten hpieces hflatten
      rw [List.length_nil, Nat.add_zero] at hparsed
      rw [if_neg (by rw [hparser, hparsed, hok]; simp), hparser]
      have hleft : Settles push [] tr' ⟨q, [], 0⟩ (.exited q tr' []) :=
        ⟨rfl, rfl, rfl, hok, hupgrade⟩
      exact Settles.append hparsed hcalls hleft
    | failed =>
      rw [hfed] at hsettles
      rw [if_pos (.inl hsettles)]
      exact hsettles

/-- **It is of no importance how a stream is cut.** From a parser that has been initialised, the
pieces one after the other fail if and only if the whole does. If they do not, they leave the same
parser, are taken as far, and make calls that say the same. It is another thing if bytes are left to
another protocol. -/
theorem executeAll_eq {type : MessageType} (hpieces : ∀ piece ∈ pieces, piece ≠ [])
    (hdata : pieces.flatten ≠ []) (hlen : pieces.flatten.length < 2 ^ 31)
    (hwhole : ((init type).execute pieces.flatten).parser.httpErrno ≠ .ok
      ∨ ((init type).execute pieces.flatten).parsed = pieces.flatten.length) :
    let whole := (init type).execute pieces.flatten
    let cut := (init type).executeAll pieces
    (cut.parser.httpErrno = .ok ↔ whole.parser.httpErrno = .ok)
      ∧ (whole.parser.httpErrno = .ok → cut.parser = whole.parser ∧ cut.parsed = whole.parsed
        ∧ gather (cut.calls.map Prod.snd) = gather (whole.calls.map Prod.snd)) := by
  have hsettles := execute_init_settles [] adds_push type hdata hlen
  have hmark := mark_init type
  have hready : (init type).Ready (init type).state.mark [] := by
    refine ⟨sound_init type, .inl rfl, fun kind hkind ↦ ?_⟩
    exact absurd (hkind.symm.trans hmark) (Option.some_ne_none _)
  have hrest : ∀ q tr' rest, (init type).feed push none [] pieces.flatten = .exited q tr' rest →
      rest = [] := by
    intro q tr' rest hfed
    rw [hfed] at hsettles
    obtain ⟨hparser, hparsed, -, hok, -⟩ := hsettles
    rcases hwhole with hne | heq
    · exact absurd (hparser ▸ hok) hne
    · exact List.length_eq_zero_iff.mp (by omega)
  have hcut := executeAll_settles hready hpieces hlen (hmark ▸ hrest)
  rw [hmark] at hcut
  dsimp only
  cases hfed : (init type).feed push none [] pieces.flatten with
  | running q mark tr' =>
    rw [hfed] at hsettles hcut
    obtain ⟨hparser, hparsed, hcalls, -⟩ := hsettles
    obtain ⟨hparser', hparsed', hcalls', -⟩ := hcut
    rw [hparser, hparser']
    exact ⟨Iff.rfl, fun _ ↦ ⟨rfl, hparsed'.trans hparsed.symm, hcalls'.trans hcalls.symm⟩⟩
  | exited q tr' rest =>
    rw [hfed] at hsettles hcut
    obtain ⟨hparser, hparsed, hcalls, -⟩ := hsettles
    obtain ⟨hparser', hparsed', hcalls', -⟩ := hcut
    rw [hparser, hparser']
    exact ⟨Iff.rfl, fun _ ↦ ⟨rfl, by omega, hcalls'.trans hcalls.symm⟩⟩
  | failed =>
    rw [hfed] at hsettles hcut
    exact ⟨⟨fun h ↦ absurd h hcut, fun h ↦ absurd h hsettles⟩, fun h ↦ absurd h hsettles⟩

/-- A request that is cut within its URL and within the value of a header. -/
def cutGet : List (List UInt8) := ["GET /a", "b HTTP/1.1\r\nHost: x", "y\r\n\r\n"].map letters

theorem executeAll_eq_cut_get :
    gather (((init .httpRequest).executeAll cutGet).calls.map Prod.snd)
      = gather (((init .httpRequest).execute cutGet.flatten).calls.map Prod.snd) := by
  obtain ⟨hok, hparsed⟩ : ((init .httpRequest).execute cutGet.flatten).parser.httpErrno = .ok
      ∧ ((init .httpRequest).execute cutGet.flatten).parsed = cutGet.flatten.length := by
    decide +kernel
  obtain ⟨hpieces, hne, hlen⟩ : (∀ piece ∈ cutGet, piece ≠ []) ∧ cutGet.flatten ≠ []
      ∧ cutGet.flatten.length < 2 ^ 31 := by
    decide +kernel
  exact ((executeAll_eq hpieces hne hlen (.inr hparsed)).2 hok).2.2

end Cut

end Knet.Http.Parser
