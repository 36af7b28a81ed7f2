import Knet.Http.Connection
import Knet.Http.Response

/-!
# Request handlers

A handler gets a response, changes it and calls the methods that pass it to the writer. What it does
next may depend on the response and on what the calls return, so that a handler is a tree of calls.
Run on a connection it comes to a list of messages and a result, which is what a connection needs of
it.
-/

namespace Knet.Http

open Bytes Knet.Tcp

/-! ## Handlers -/

/-- What a handler does with the response that it is given, and what it returns. What it does next
may depend on the response and on what the calls return. -/
inductive Program
  /-- The handler returns. -/
  | ret (rst : ℤ)
  /-- It looks at the members of the response. -/
  | look (k : HttpResponse → Program)
  /-- It assigns to `status_code`, `content_type` and `content`. -/
  | assign (statusCode : ℕ) (contentType content : List UInt8) (k : Program)
  /-- It calls `add_header`. -/
  | addHeader (key value : List UInt8) (k : Program)
  /-- It calls `write(msg, code)`, and goes on with what that returns. -/
  | write (msg : List UInt8) (code : ℕ) (k : ℤ → Program)
  /-- It calls `write()`. -/
  | writeOut (k : ℤ → Program)
  /-- It calls `json(msg)`. -/
  | json (msg : List UInt8) (k : ℤ → Program)

/-- `HttpHandler`. -/
structure HttpHandler where
  httpHandler : Option (HttpDecoder → Program)
  contextHandler : Option (HttpDecoder → Program)

/-- `HttpHandler::call`. -/
def HttpHandler.call (h : HttpHandler) (request : HttpDecoder) : Program :=
  match h.contextHandler, h.httpHandler with
  | some contextHandler, _ => contextHandler request
  | none, some httpHandler => httpHandler request
  | none, none => .writeOut .ret

/-- A method of the response has been called. What it passes to the writer is sent, and the result
is that of `send`; without a writer it is `-1`. -/
def passing (w : HttpResponse × Option (List UInt8)) (s : TcpSocket)
    (k : ℤ → HttpResponse → TcpSocket → Answer) : Answer :=
  match w.2 with
  | none => k (-1) w.1 s
  | some msg =>
    let answer := k ((send s msg).results.getLastD (-1)) w.1 (send s msg)
    { answer with sent := msg :: answer.sent }

/-- What a handler sends and returns, on a connection with the socket `s`. -/
def Program.answer (now : DateText) : Program → HttpResponse → TcpSocket → Answer
  | .ret rst, _, _ => ⟨[], rst⟩
  | .look k, r, s => (k r).answer now r s
  | .assign statusCode contentType content k, r, s =>
    k.answer now
      { r with statusCode := statusCode, contentType := contentType, content := content } s
  | .addHeader key value k, r, s =>
    k.answer now { r with toHttpEncoder := r.toHttpEncoder.addHeader key value } s
  | .write msg code k, r, s =>
    passing (r.write msg code now) s fun rst r s ↦ (k rst).answer now r s
  | .writeOut k, r, s => passing (r.writeOut now) s fun rst r s ↦ (k rst).answer now r s
  | .json msg k, r, s => passing (r.json msg now) s fun rst r s ↦ (k rst).answer now r s

/-- The handler calls none of the methods that write, and returns no error. -/
def Program.Silent : Program → HttpResponse → Prop
  | .ret rst, _ => 0 ≤ rst
  | .look k, r => (k r).Silent r
  | .assign statusCode contentType content k, r =>
    k.Silent { r with statusCode := statusCode, contentType := contentType, content := content }
  | .addHeader key value k, r =>
    k.Silent { r with toHttpEncoder := r.toHttpEncoder.addHeader key value }
  | .write _ _ _, _ => False
  | .writeOut _, _ => False
  | .json _ _, _ => False

/-! ## What a handler says -/

section Handlers

variable {now : DateText} {s : TcpSocket} {r : HttpResponse}

theorem HttpResponse.encode_ne_nil (r : HttpResponse) (now : DateText) : r.encode now ≠ [] := by
  rw [HttpResponse.encode_eq]
  exact fun h ↦ List.cons_ne_nil _ _ (List.append_eq_nil_iff.mp h).2

/-- **Without a writer nothing is sent.** -/
theorem Program.sent_eq_nil (h : r.hasWriter = false) (prog : Program) :
    (prog.answer now r s).sent = [] := by
  have hnot : ¬r.hasWriter = true := Bool.eq_false_iff.mp h
  induction prog generalizing r s with
  | ret rst => rfl
  | look k ih => exact ih r h hnot
  | assign statusCode contentType content k ih => exact ih h hnot
  | addHeader key value k ih => exact ih h hnot
  | write msg code k ih =>
    rw [Program.answer, HttpResponse.write, if_neg hnot]
    exact ih (-1) h hnot
  | writeOut k ih =>
    rw [Program.answer, HttpResponse.writeOut, if_neg hnot]
    exact ih (-1) h hnot
  | json msg k ih =>
    rw [Program.answer, HttpResponse.json, if_neg hnot]
    exact ih (-1) h hnot

theorem Program.sent_eq_nil_iff (h : r.hasWriter = true) (prog : Program) :
    ((prog.answer now r s).sent = [] ∧ 0 ≤ (prog.answer now r s).rst) ↔ prog.Silent r := by
  induction prog generalizing r s with
  | ret rst => simp [Program.answer, Program.Silent]
  | look k ih => exact ih r h
  | assign statusCode contentType content k ih => exact ih h
  | addHeader key value k ih => exact ih h
  | write msg code k ih =>
    rw [Program.answer, HttpResponse.write, if_pos h]
    simp [passing, Program.Silent]
  | writeOut k ih =>
    rw [Program.answer, HttpResponse.writeOut, if_pos h]
    simp [passing, Program.Silent]
  | json msg k ih =>
    rw [Program.answer, HttpResponse.json, if_pos h]
    simp [passing, Program.Silent]

theorem ne_nil_of_mem_passing {w : HttpResponse × Option (List UInt8)}
    {k : ℤ → HttpResponse → TcpSocket → Answer} (hw : ∀ msg, w.2 = some msg → msg ≠ [])
    (hk : ∀ rst s, ∀ msg ∈ (k rst w.1 s).sent, msg ≠ []) :
    ∀ msg ∈ (passing w s k).sent, msg ≠ [] := by
  rw [passing]
  cases hsent : w.2 with
  | none => exact hk _ _
  | some msg => exact List.forall_mem_cons.mpr ⟨hw msg hsent, hk _ _⟩

theorem Program.ne_nil_of_mem_sent (prog : Program) :
    ∀ msg ∈ (prog.answer now r s).sent, msg ≠ [] := by
  induction prog generalizing r s with
  | ret rst => exact fun msg hmsg ↦ absurd hmsg List.not_mem_nil
  | look k ih => exact ih r
  | assign statusCode contentType content k ih => exact ih
  | addHeader key value k ih => exact ih
  | write msg code k ih =>
    refine ne_nil_of_mem_passing (fun msg hmsg ↦ ?_) fun rst s ↦ ih rst
    rw [HttpResponse.eq_encode_of_write hmsg]
    exact HttpResponse.encode_ne_nil _ now
  | writeOut k ih =>
    refine ne_nil_of_mem_passing (fun msg hmsg ↦ ?_) fun rst s ↦ ih rst
    rw [HttpResponse.eq_encode_of_writeOut hmsg]
    exact HttpResponse.encode_ne_nil _ now
  | json msg k ih =>
    refine ne_nil_of_mem_passing (fun msg hmsg ↦ ?_) fun rst s ↦ ih rst
    rw [HttpResponse.eq_encode_of_json hmsg]
    exact HttpResponse.encode_ne_nil _ now

end Handlers

end Knet.Http
