import SkynetEureka.Mongo.Reply

/-!
# mongo_cursor (mongo.lua)

`hasNext` asks for the next batch of documents when the last one has been handed out, and `next`
hands out one document. Which of the fields are nil says where the cursor is: `ptr` is there while
a batch is handed out, `data` when a reply has been taken, `cursor` when the server has more, and
`document` until there is nothing left to ask for. A batch without a document ends the cursor, also
where the server has more.
-/

namespace SkynetEureka.Mongo

open Lib Bson

variable {D C : Type}

/-! ## Replies -/

/-- What `dispatch_reply` makes of a reply; `D` are the documents and `C` the ids of cursors. -/
structure Answer (D C : Type) where
  succ : Bool
  document : Option D
  cursorId : Option C
  result : List D

/-- A well-formed reply: a batch with the id of the cursor if that is not zero, or a failure, with
its document if the server has sent one. -/
inductive Response (D C : Type) where
  | batch (documents : List D) (cursorId : Option C)
  | failure (error : Option D)

namespace Response

def documents : Response D C → List D
  | batch documents _ => documents
  | failure _ => []

def answer : Response D C → Answer D C
  | batch documents cursorId => ⟨true, documents.head?, cursorId, documents⟩
  | failure error => ⟨false, error, none, []⟩

/-- There is nothing behind such a reply. -/
def Last : Response D C → Prop
  | batch _ cursorId => cursorId = none
  | failure _ => True

end Response

theorem finish_document {data : List UInt8} {docs docs' : List ℤ} {sz id starting : ℤ}
    {document : Option ℤ} {cursor : Option (List UInt8)}
    (h : finish data docs sz = .reply id docs' document cursor starting) :
    docs' = docs ∧ (document = none ↔ field data 28 = 0) := by
  unfold finish at h
  by_cases hsz : sz = 0
  · rw [if_neg (not_not.mpr hsz)] at h
    obtain ⟨-, hdocs, hdocument, -, -⟩ := Result.reply.inj h
    refine ⟨hdocs.symm, ?_⟩
    rw [← hdocument]
    by_cases hnumber : field data 28 = 0
    · rw [if_pos hnumber]
      exact iff_of_true rfl hnumber
    · rw [if_neg hnumber]
      exact iff_of_false (Option.some_ne_none _) hnumber
  · rw [if_pos hsz] at h
    cases h

/-- `op_reply` gives a batch its first document exactly when the batch is not empty. -/
theorem opReply_document {data : List UInt8} {fuel : ℕ} {id starting : ℤ} {docs : List ℤ}
    {document : Option ℤ} {cursor : Option (List UInt8)}
    (h : opReply data fuel true = .ok (.reply id docs document cursor starting)) :
    document = none ↔ docs = [] := by
  unfold opReply at h
  by_cases hshort : data.length < replySize
  · rw [if_pos hshort] at h
    cases h
  rw [if_neg hshort] at h
  by_cases hfailure : queryFailure (field data 12) = true
  · rw [if_pos hfailure] at h
    cases h
  rw [if_neg hfailure] at h
  dsimp only at h
  rw [if_pos rfl] at h
  cases hdocs : Mongo.documents data fuel replySize
      (wrap (wrap data.length - replySize)) with
  | error e =>
    rw [hdocs] at h
    cases h
  | ok p =>
    rw [hdocs, except_ok_bind] at h
    by_cases hnumber : (p.1.length : ℤ) = field data 28
    · rw [if_neg (not_not.mpr hnumber)] at h
      obtain ⟨rfl, hdocument⟩ := finish_document (Except.ok.inj h)
      rw [hdocument, ← hnumber, Nat.cast_eq_zero, List.length_eq_zero_iff]
    · rw [if_pos hnumber] at h
      cases h

/-! ## The cursor -/

/-- The fields of a cursor that change; `data` is not nil when a reply has been taken. -/
structure Cursor (D C : Type) where
  ptr : Option ℕ
  document : Option (List D)
  data : Bool
  cursor : Option C
  limit : ℤ

/-- What is sent to the server -/
inductive Request (C : Type) where
  | query (limit : ℤ)
  | more (limit : ℤ) (cursor : C)
  | kill (cursor : C)

/-- How `hasNext` ends: it returns, it raises with the document of the server or with "Reply from
mongod error", or it waits for a reply. -/
inductive Called (D : Type) where
  | returns (b : Bool)
  | raises (error : Option D)
  | waits

/-- A call of `hasNext`: how it ends, what it has sent, the cursor behind it, and the replies that
are left. -/
structure Call (D C : Type) where
  value : Called D
  requests : List (Request C)
  cursor : Cursor D C
  replies : List (Response D C)

namespace Cursor

variable (s : Cursor D C)

/-- `mongo_collection:find`, with this limit -/
def find (limit : ℤ) : Cursor D C := ⟨none, some [], false, none, limit⟩

/-- `close` -/
def close : List (Request C) × Cursor D C :=
  match s.cursor with
  | some cursor => ([.kill cursor], { s with cursor := none })
  | none => ([], s)

/-- The documents of a reply are there. -/
def start (a : Answer D C) : List (Request C) × Cursor D C :=
  let s := { s with document := some a.result, data := true, ptr := some 1, cursor := a.cursorId }
  match a.cursorId with
  | none => ([], s)
  | some _ =>
    if s.limit > 0 then
      let limit := s.limit - a.result.length
      if limit ≤ 0 then
        -- reach limit
        let (requests, s) := s.close
        (requests, { s with limit := limit })
      else ([], { s with limit := limit })
    else ([], s)

/-- There are no documents. -/
def clear : Cursor D C := { s with document := none, data := false, cursor := none }

/-- `hasNext` behind its request -/
def take (a : Answer D C) : Called D × List (Request C) × Cursor D C :=
  if a.succ then
    match a.document with
    | some _ => (.returns true, s.start a)
    | none => (.returns false, [], s.clear)
  else (.raises a.document, [], s.clear)

/-- The request for a batch, unless there is no more -/
def request : Option (Request C) :=
  if s.data then s.cursor.map (.more s.limit) else some (.query s.limit)

/-- `hasNext` -/
def hasNext (replies : List (Response D C)) : Call D C :=
  match s.ptr with
  | some _ => ⟨.returns true, [], s, replies⟩
  | none =>
    match s.document with
    | none => ⟨.returns false, [], s, replies⟩
    | some _ =>
      match s.request with
      | none => ⟨.returns false, [], { s with document := none, data := false }, replies⟩
      | some request =>
        match replies with
        | [] => ⟨.waits, [request], s, []⟩
        | r :: replies =>
          let (value, requests, s) := s.take r.answer
          ⟨value, request :: requests, s, replies⟩

/-- `next`, which raises without a batch -/
def next : Option (D × Cursor D C) := do
  let ptr ← s.ptr
  let document ← s.document
  let r ← document[ptr - 1]?
  some (r, { s with ptr := if ptr + 1 > document.length then none else some (ptr + 1) })

end Cursor

/-! ## hasNext and next in turn -/

/-- How this ends: `hasNext` returns false, or a call raises, or waits. -/
inductive Ended (D : Type) where
  | done
  | raised (error : Option D)
  | waiting
  | endless

/-- What has been handed out, what has been sent, and what is left -/
structure Trace (D C : Type) where
  documents : List D
  requests : List (Request C)
  left : List (Response D C)
  cursor : Cursor D C
  ended : Ended D

/-- The calls one after another -/
def alternate : ℕ → Cursor D C → List (Response D C) → Trace D C
  | 0, s, replies => ⟨[], [], replies, s, .endless⟩
  | fuel + 1, s, replies =>
    let call := s.hasNext replies
    match call.value with
    | .returns true =>
      match call.cursor.next with
      | some (document, s) =>
        let trace := alternate fuel s call.replies
        { trace with documents := document :: trace.documents,
                     requests := call.requests ++ trace.requests }
      | none => ⟨[], call.requests, call.replies, call.cursor, .raised none⟩
    | .returns false => ⟨[], call.requests, call.replies, call.cursor, .done⟩
    | .raises error => ⟨[], call.requests, call.replies, call.cursor, .raised error⟩
    | .waits => ⟨[], call.requests, call.replies, call.cursor, .waiting⟩

/-- Each round takes a document, and the last one ends. -/
def rounds (replies : List (Response D C)) : ℕ := (replies.flatMap Response.documents).length + 1

/-! ## What the calls should give -/

/-- The documents of these replies have reached the limit. -/
def Reaches (limit : ℤ) (taken : List (Response D C)) : Prop :=
  0 < limit ∧ limit ≤ (taken.flatMap Response.documents).length

/-- The cursor asks for nothing more. -/
def Cursor.Quiet (s : Cursor D C) : Prop :=
  ∀ replies : List (Response D C), s.hasNext replies = ⟨.returns false, [], s, replies⟩

/-- The end has a reason in the replies that have been taken. -/
def Ended.Justified (limit : ℤ) (taken left : List (Response D C)) : Ended D → Prop
  | .done => Reaches limit taken ∨ ∃ init docs, taken = init ++ [.batch docs none]
  | .raised error => ∃ init, taken = init ++ [.failure error]
  | .waiting => left = [] ∧ ∀ r ∈ taken, ¬ r.Last
  | .endless => False

/-- The documents are those of the replies that have been taken, and each of these but the last is
open, does not fail and does not reach the limit. -/
def Yields (limit : ℤ) (replies : List (Response D C))
    (given : List D × List (Response D C) × Ended D) : Prop :=
  ∃ taken, replies = taken ++ given.2.1 ∧ given.1 = taken.flatMap Response.documents ∧
    given.2.2.Justified limit taken given.2.1 ∧
    ∀ init r, taken = init ++ [r] → ¬ Reaches limit init ∧ ∀ r ∈ init, ¬ r.Last

/-- The calls yield the documents of the replies, and after the end the cursor is quiet. -/
structure Faithful (limit : ℤ) (replies : List (Response D C)) (trace : Trace D C) : Prop where
  yields : Yields limit replies (trace.documents, trace.left, trace.ended)
  quiet : trace.ended ≠ .waiting → trace.cursor.Quiet

/-- No batch that the cursor comes to is empty while the server has more. -/
def Steady (limit : ℤ) (replies : List (Response D C)) : Prop :=
  ∀ init cursorId rest, replies = init ++ .batch [] (some cursorId) :: rest →
    Reaches limit init ∨ ∃ r ∈ init, r.Last

/-! ## The calls -/

section calls

variable {s : Cursor D C} {docs : List D} {replies rest : List (Response D C)}

/-- The cursor is about to ask for a batch. -/
structure Cursor.Ready (s : Cursor D C) : Prop where
  ptr : s.ptr = none
  document : ∃ docs, s.document = some docs
  cursor : s.data = true → ∃ cursor, s.cursor = some cursor

theorem Cursor.Ready.request (h : s.Ready) : ∃ request, s.request = some request := by
  unfold Cursor.request
  cases hdata : s.data with
  | true =>
    obtain ⟨cursor, hcursor⟩ := h.cursor hdata
    rw [if_pos rfl, hcursor]
    exact ⟨_, rfl⟩
  | false => exact ⟨_, rfl⟩

theorem Cursor.Ready.hasNext_nil (h : s.Ready) :
    ∃ request, s.hasNext [] = ⟨.waits, [request], s, []⟩ := by
  obtain ⟨docs, hdocument⟩ := h.document
  obtain ⟨request, hrequest⟩ := h.request
  refine ⟨request, ?_⟩
  unfold Cursor.hasNext
  rw [h.ptr, hdocument]
  simp only [hrequest]

theorem Cursor.Ready.hasNext_cons (h : s.Ready) (r : Response D C)
    (rest : List (Response D C)) : ∃ request, s.hasNext (r :: rest) =
      ⟨(s.take r.answer).1, request :: (s.take r.answer).2.1, (s.take r.answer).2.2, rest⟩ := by
  obtain ⟨docs, hdocument⟩ := h.document
  obtain ⟨request, hrequest⟩ := h.request
  refine ⟨request, ?_⟩
  unfold Cursor.hasNext
  rw [h.ptr, hdocument]
  simp only [hrequest]

theorem Cursor.quiet_of_none (hptr : s.ptr = none) (hdocument : s.document = none) : s.Quiet := by
  intro replies
  unfold Cursor.hasNext
  rw [hptr, hdocument]

/-- One round -/
theorem alternate_succ (fuel : ℕ) : alternate (fuel + 1) s replies =
    match (s.hasNext replies).value with
    | .returns true =>
      match (s.hasNext replies).cursor.next with
      | some (document, s') =>
        let trace := alternate fuel s' (s.hasNext replies).replies
        { trace with documents := document :: trace.documents,
                     requests := (s.hasNext replies).requests ++ trace.requests }
      | none => ⟨[], (s.hasNext replies).requests, (s.hasNext replies).replies,
          (s.hasNext replies).cursor, .raised none⟩
    | .returns false => ⟨[], (s.hasNext replies).requests, (s.hasNext replies).replies,
        (s.hasNext replies).cursor, .done⟩
    | .raises error => ⟨[], (s.hasNext replies).requests, (s.hasNext replies).replies,
        (s.hasNext replies).cursor, .raised error⟩
    | .waits => ⟨[], (s.hasNext replies).requests, (s.hasNext replies).replies,
        (s.hasNext replies).cursor, .waiting⟩ := rfl

/-- A batch is handed out. -/
theorem alternate_drain {s : Cursor D C} {k : ℕ} (fuel : ℕ) (hdocument : s.document = some docs)
    (hk : k < docs.length) (hptr : s.ptr = some (k + 1)) :
    alternate (docs.length - k + fuel) s replies =
      { alternate fuel { s with ptr := none } replies with
        documents := docs.drop k ++ (alternate fuel { s with ptr := none } replies).documents } := by
  have hrounds : docs.length - k + fuel = docs.length - (k + 1) + fuel + 1 := by omega
  have hcall : s.hasNext replies = ⟨.returns true, [], s, replies⟩ := by
    unfold Cursor.hasNext
    rw [hptr]
  have hnext : s.next = some (docs[k], { s with
      ptr := if k + 1 + 1 > docs.length then none else some (k + 1 + 1) }) := by
    unfold Cursor.next
    rw [hptr, hdocument]
    show (docs[k]? >>= _) = _
    rw [List.getElem?_eq_getElem hk]
    rfl
  have hround : alternate (docs.length - k + fuel) s replies =
      { alternate (docs.length - (k + 1) + fuel) { s with
          ptr := if k + 1 + 1 > docs.length then none else some (k + 1 + 1) } replies with
        documents := docs[k] :: (alternate (docs.length - (k + 1) + fuel) { s with
          ptr := if k + 1 + 1 > docs.length then none else some (k + 1 + 1) } replies).documents } := by
    rw [hrounds, alternate_succ, hcall]
    dsimp only
    rw [hnext]
    rfl
  rw [hround, List.drop_eq_getElem_cons hk]
  by_cases hlast : k + 1 = docs.length
  · rw [if_pos (by omega), List.drop_of_length_le (by omega),
      show docs.length - (k + 1) + fuel = fuel by omega]
    rfl
  · rw [if_neg (by omega), alternate_drain (s := { s with ptr := some (k + 1 + 1) }) fuel hdocument
      (by omega) rfl]
    rfl
termination_by docs.length - k

/-- `hasNext` has taken a batch. -/
theorem alternate_taken {fuel : ℕ} {call : Call D C} (hcall : s.hasNext replies = call)
    (htrue : call.value = .returns true) (hptr : call.cursor.ptr ≠ none) :
    alternate (fuel + 1) s replies =
      { alternate (fuel + 1) call.cursor call.replies with
        requests := call.requests ++
          (alternate (fuel + 1) call.cursor call.replies).requests } := by
  obtain ⟨ptr, hptr⟩ := Option.ne_none_iff_exists'.mp hptr
  have hagain : call.cursor.hasNext call.replies =
      ⟨.returns true, [], call.cursor, call.replies⟩ := by
    unfold Cursor.hasNext
    rw [hptr]
  rw [alternate_succ, alternate_succ, hcall, hagain]
  dsimp only
  rw [htrue]
  dsimp only
  cases call.cursor.next with
  | none => simp
  | some p => simp

/-- What a batch leaves of the cursor and the limit -/
theorem start_cases (s : Cursor D C) (docs : List D) (cursorId : Option C) :
    (s.start (Response.batch docs cursorId).answer).2.ptr = some 1 ∧
      (s.start (Response.batch docs cursorId).answer).2.document = some docs ∧
      (s.start (Response.batch docs cursorId).answer).2.data = true ∧
      if cursorId = none ∨ 0 < s.limit ∧ s.limit ≤ docs.length then
        (s.start (Response.batch docs cursorId).answer).2.cursor = none
      else (s.start (Response.batch docs cursorId).answer).2.cursor = cursorId ∧
        (s.start (Response.batch docs cursorId).answer).2.limit =
          if 0 < s.limit then s.limit - docs.length else s.limit := by
  unfold Cursor.start Response.answer
  cases cursorId with
  | none => exact ⟨rfl, rfl, rfl, rfl⟩
  | some c =>
    dsimp only
    by_cases hlimit : 0 < s.limit
    · by_cases hreach : s.limit - docs.length ≤ 0
      · rw [if_pos hlimit, if_pos hreach, if_pos (Or.inr ⟨hlimit, by omega⟩)]
        exact ⟨rfl, rfl, rfl, rfl⟩
      · rw [if_pos hlimit, if_neg hreach,
          if_neg (not_or.mpr ⟨Option.some_ne_none c, fun h => hreach (by omega)⟩), if_pos hlimit]
        exact ⟨rfl, rfl, rfl, rfl, rfl⟩
    · rw [if_neg hlimit,
        if_neg (not_or.mpr ⟨Option.some_ne_none c, fun h => hlimit h.1⟩), if_neg hlimit]
      exact ⟨rfl, rfl, rfl, rfl, rfl⟩

/-- What is handed out, the replies that are left, and the end -/
def expected (limit : ℤ) : List (Response D C) → List D × List (Response D C) × Ended D
  | [] => ([], [], .waiting)
  | .failure error :: rest => ([], rest, .raised error)
  | .batch docs cursorId :: rest =>
    if docs = [] ∨ cursorId = none ∨ 0 < limit ∧ limit ≤ docs.length then (docs, rest, .done)
    else
      let next := expected (if 0 < limit then limit - docs.length else limit) rest
      (docs ++ next.1, next.2)

/-- The calls from a cursor on that is about to ask -/
theorem alternate_ready (hs : s.Ready) {fuel : ℕ} (hfuel : rounds replies ≤ fuel) :
    ((alternate fuel s replies).documents, (alternate fuel s replies).left,
        (alternate fuel s replies).ended) = expected s.limit replies ∧
      ((alternate fuel s replies).ended ≠ .waiting → (alternate fuel s replies).cursor.Quiet) := by
  unfold rounds at hfuel
  induction replies generalizing s fuel with
  | nil =>
    obtain ⟨fuel, rfl⟩ : ∃ f, fuel = f + 1 := ⟨fuel - 1, by omega⟩
    obtain ⟨request, hcall⟩ := hs.hasNext_nil
    rw [alternate_succ, hcall]
    exact ⟨rfl, fun h => absurd rfl h⟩
  | cons r rest ih =>
    rw [List.flatMap_cons, List.length_append] at hfuel
    obtain ⟨request, hcall⟩ := hs.hasNext_cons r rest
    cases r with
    | failure error =>
      obtain ⟨fuel, rfl⟩ : ∃ f, fuel = f + 1 := ⟨fuel - 1, by omega⟩
      rw [alternate_succ, hcall]
      exact ⟨rfl, fun _ => Cursor.quiet_of_none hs.ptr rfl⟩
    | batch docs cursorId =>
      change docs.length + _ + 1 ≤ fuel at hfuel
      unfold expected
      cases docs with
      | nil =>
        obtain ⟨fuel, rfl⟩ : ∃ f, fuel = f + 1 := ⟨fuel - 1, by omega⟩
        rw [alternate_succ, hcall, if_pos (Or.inl rfl)]
        exact ⟨rfl, fun _ => Cursor.quiet_of_none hs.ptr rfl⟩
      | cons d docs =>
        obtain ⟨hptr, hdocument, hdata, hcursor⟩ := start_cases s (d :: docs) cursorId
        generalize hn : d :: docs = batch at *
        have hpos : 0 < batch.length := by rw [← hn, List.length_cons]; omega
        have htake : s.take (Response.batch batch cursorId).answer =
            (.returns true, s.start (Response.batch batch cursorId).answer) := by
          rw [← hn]
          rfl
        rw [htake] at hcall
        generalize s.start (Response.batch batch cursorId).answer = started at *
        obtain ⟨requests, s'⟩ := started
        dsimp only at hptr hdocument hdata hcursor hcall
        obtain ⟨fuel, rfl⟩ : ∃ f, fuel = batch.length - 0 + (f + 1) :=
          ⟨fuel - batch.length - 1, by omega⟩
        rw [← Nat.add_assoc, alternate_taken hcall rfl (by rw [hptr]; exact Option.some_ne_none 1),
          Nat.add_assoc]
        dsimp only
        rw [alternate_drain (fuel + 1) hdocument hpos hptr, List.drop_zero]
        dsimp only
        by_cases hend : cursorId = none ∨ 0 < s.limit ∧ s.limit ≤ batch.length
        · -- there is nothing left to ask for
          rw [if_pos hend] at hcursor
          have hdone : ({ s' with ptr := none } : Cursor D C).hasNext rest =
              ⟨.returns false, [], { s' with ptr := none, document := none, data := false },
                rest⟩ := by
            unfold Cursor.hasNext Cursor.request
            dsimp only
            rw [hdocument, hdata, hcursor]
            rfl
          rw [if_pos (Or.inr hend), alternate_succ, hdone]
          exact ⟨by simp, fun _ => Cursor.quiet_of_none rfl rfl⟩
        · rw [if_neg hend] at hcursor
          rw [if_neg (not_or.mpr ⟨List.ne_nil_of_length_pos hpos, hend⟩)]
          have hopen : cursorId ≠ none := fun h => hend (Or.inl h)
          have hready : ({ s' with ptr := none } : Cursor D C).Ready :=
            ⟨rfl, ⟨batch, hdocument⟩, fun _ => by
              show ∃ cursor, s'.cursor = some cursor
              rw [hcursor.1]
              exact Option.ne_none_iff_exists'.mp hopen⟩
          have hrounds : (rest.flatMap Response.documents).length + 1 ≤ fuel + 1 := by omega
          obtain ⟨heq, hquiet⟩ := ih hready hrounds
          change _ = expected s'.limit rest at heq
          refine ⟨?_, hquiet⟩
          rw [← hcursor.2]
          rw [← heq]

/-! ## The documents that are handed out -/

variable {limit limit' : ℤ} {r : Response D C} {taken left : List (Response D C)} {given : List D}
  {ended : Ended D}

/-- The limit behind a batch -/
theorem reaches_cons (hno : ¬ (0 < limit ∧ limit ≤ r.documents.length))
    (hlimit : limit' = if 0 < limit then limit - r.documents.length else limit) :
    Reaches limit (r :: taken) ↔ Reaches limit' taken := by
  unfold Reaches
  rw [List.flatMap_cons, List.length_append]
  push_cast
  split_ifs at hlimit <;> omega

theorem justified_cons (hno : ¬ (0 < limit ∧ limit ≤ r.documents.length)) (hopen : ¬ r.Last)
    (hlimit : limit' = if 0 < limit then limit - r.documents.length else limit) :
    ended.Justified limit (r :: taken) left ↔ ended.Justified limit' taken left := by
  -- a reply that is open and does not fail is not the one that ends the calls
  have hsplit : ∀ x : Response D C, x.Last →
      ((∃ init, r :: taken = init ++ [x]) ↔ ∃ init, taken = init ++ [x]) := by
    intro x hx
    constructor
    · rintro ⟨init, heq⟩
      cases init with
      | nil =>
        obtain ⟨rfl, -⟩ := List.cons.inj heq
        exact absurd hx hopen
      | cons r' init => exact ⟨init, (List.cons.inj heq).2⟩
    · rintro ⟨init, heq⟩
      exact ⟨r :: init, by rw [heq, List.cons_append]⟩
  cases ended with
  | done =>
    show (_ ∨ ∃ init docs, _) ↔ (_ ∨ ∃ init docs, _)
    rw [reaches_cons hno hlimit, exists_comm, exists_comm (p := fun init docs => taken = _)]
    simp only [hsplit (.batch _ none) rfl]
  | raised error => exact hsplit (.failure error) trivial
  | waiting =>
    show (_ ∧ ∀ x ∈ r :: taken, _) ↔ _
    rw [List.forall_mem_cons, and_iff_right hopen]
    rfl
  | endless => exact Iff.rfl

/-- The documents behind an open batch -/
theorem yields_cons (hno : ¬ (0 < limit ∧ limit ≤ r.documents.length)) (hopen : ¬ r.Last)
    (hlimit : limit' = if 0 < limit then limit - r.documents.length else limit)
    (hleft : left.length ≤ rest.length) :
    Yields limit (r :: rest) (r.documents ++ given, left, ended) ↔
      Yields limit' rest (given, left, ended) := by
  constructor
  · rintro ⟨taken, hreplies, hgiven, hjustified, hlast⟩
    cases taken with
    | nil =>
      have hlen := congrArg List.length hreplies
      rw [List.nil_append, List.length_cons] at hlen
      dsimp only at hlen
      omega
    | cons r' taken =>
      obtain ⟨rfl, hrest⟩ := List.cons.inj hreplies
      refine ⟨taken, hrest, List.append_cancel_left hgiven,
        (justified_cons hno hopen hlimit).mp hjustified, fun init x heq => ?_⟩
      obtain ⟨hreaches, hall⟩ := hlast (r :: init) x (by rw [heq, List.cons_append])
      exact ⟨fun h => hreaches ((reaches_cons hno hlimit).mpr h),
        fun y hy => hall y (List.mem_cons_of_mem _ hy)⟩
  · rintro ⟨taken, hreplies, hgiven, hjustified, hlast⟩
    refine ⟨r :: taken, by rw [hreplies, List.cons_append], congrArg _ hgiven,
      (justified_cons hno hopen hlimit).mpr hjustified, fun init x heq => ?_⟩
    cases init with
    | nil => exact ⟨fun h => absurd h.2 (not_le_of_gt h.1), fun y hy => by cases hy⟩
    | cons r' init =>
      obtain ⟨rfl, htaken⟩ := List.cons.inj heq
      obtain ⟨hreaches, hall⟩ := hlast init x htaken
      refine ⟨fun h => hreaches ((reaches_cons hno hlimit).mp h), fun y hy => ?_⟩
      rcases List.mem_cons.mp hy with rfl | hmem
      · exact hopen
      · exact hall y hmem

theorem steady_cons (hno : ¬ (0 < limit ∧ limit ≤ r.documents.length)) (hopen : ¬ r.Last)
    (hdocs : r.documents ≠ [])
    (hlimit : limit' = if 0 < limit then limit - r.documents.length else limit) :
    Steady limit (r :: rest) ↔ Steady limit' rest := by
  constructor
  · intro h init cursorId rest' heq
    have hcons := h (r :: init) cursorId rest' (by rw [heq, List.cons_append])
    rwa [reaches_cons hno hlimit, List.exists_mem_cons_iff, or_iff_right hopen] at hcons
  · intro h init cursorId rest' heq
    cases init with
    | nil =>
      obtain ⟨rfl, -⟩ := List.cons.inj heq
      exact absurd rfl hdocs
    | cons r' init =>
      obtain ⟨rfl, hrest⟩ := List.cons.inj heq
      rw [reaches_cons hno hlimit, List.exists_mem_cons_iff, or_iff_right hopen]
      exact h init cursorId rest' hrest

theorem length_expected (limit : ℤ) (replies : List (Response D C)) :
    (expected limit replies).2.1.length ≤ replies.length := by
  induction replies generalizing limit with
  | nil => exact le_rfl
  | cons r rest ih =>
    rw [List.length_cons]
    cases r with
    | failure error => exact Nat.le_succ _
    | batch docs cursorId =>
      unfold expected
      by_cases hend : docs = [] ∨ cursorId = none ∨ 0 < limit ∧ limit ≤ docs.length
      · rw [if_pos hend]
        exact Nat.le_succ _
      · rw [if_neg hend]
        exact (ih _).trans (Nat.le_succ _)

/-- A reply that ends the calls -/
theorem yields_single (limit : ℤ) (r : Response D C) (rest : List (Response D C)) :
    Yields limit (r :: rest) (r.documents, rest, ended) ↔ ended.Justified limit [r] rest := by
  constructor
  · rintro ⟨taken, hreplies, -, hjustified, -⟩
    have htaken : taken = [r] := (List.append_cancel_right (hreplies : [r] ++ rest = _)).symm
    rwa [htaken] at hjustified
  · intro hjustified
    refine ⟨[r], rfl, by rw [List.flatMap_singleton], hjustified, fun init x heq => ?_⟩
    have hinit : init = [] := by
      have hlen := congrArg List.length heq
      rw [List.length_append, List.length_singleton, List.length_singleton] at hlen
      exact List.eq_nil_of_length_eq_zero (by omega)
    rw [hinit]
    exact ⟨fun h => absurd h.2 (not_le_of_gt h.1), fun y hy => by cases hy⟩

/-- A reply without anything behind it, unless it is an empty batch -/
theorem steady_of_ends (h : r.Last ∨ Reaches limit [r]) (hr : ∀ c, r ≠ .batch [] (some c)) :
    Steady limit (r :: rest) := by
  intro init cursorId rest' heq
  cases init with
  | nil => exact absurd (List.cons.inj heq).1 (hr cursorId)
  | cons r' init =>
    obtain ⟨rfl, -⟩ := List.cons.inj heq
    rcases h with hlast | hreaches
    · exact Or.inr ⟨r, List.mem_cons_self, hlast⟩
    · refine Or.inl ⟨hreaches.1, hreaches.2.trans ?_⟩
      rw [List.flatMap_singleton, List.flatMap_cons, List.length_append]
      push_cast
      omega

/-- An empty batch of an open cursor -/
theorem not_yields_empty (limit : ℤ) (c : C) (rest : List (Response D C)) :
    ¬ (Ended.done : Ended D).Justified limit [.batch [] (some c)] rest := by
  rintro (⟨hpos, hle⟩ | ⟨init, docs, heq⟩)
  · exact absurd hle (not_le_of_gt hpos)
  · have hmem : Response.batch docs none ∈ [Response.batch ([] : List D) (some c)] := by
      rw [heq]
      exact List.mem_append_right _ List.mem_cons_self
    cases List.mem_singleton.mp hmem

theorem not_steady_empty (limit : ℤ) (c : C) (rest : List (Response D C)) :
    ¬ Steady limit (.batch [] (some c) :: rest) := by
  intro h
  rcases h [] c rest rfl with hreach | ⟨r, hr, -⟩
  · exact absurd hreach.2 (not_le_of_gt hreach.1)
  · cases hr

/-- The calls give the documents of the replies exactly when no empty batch stops them. -/
theorem yields_expected_iff (limit : ℤ) (replies : List (Response D C)) :
    Yields limit replies (expected limit replies) ↔ Steady limit replies := by
  induction replies generalizing limit with
  | nil =>
    refine iff_of_true ⟨[], rfl, rfl, ⟨rfl, fun r hr => by cases hr⟩, fun init r heq => ?_⟩ ?_
    · exact absurd heq.symm (List.append_ne_nil_of_right_ne_nil _ (List.cons_ne_nil _ _))
    · intro init cursorId rest heq
      exact absurd heq.symm (List.append_ne_nil_of_right_ne_nil _ (List.cons_ne_nil _ _))
  | cons r rest ih =>
    cases r with
    | failure error =>
      have hjustified : (Ended.raised error).Justified limit [(.failure error : Response D C)] rest :=
        ⟨[], rfl⟩
      refine iff_of_true ((yields_single limit (.failure error) rest).mpr hjustified) ?_
      exact steady_of_ends (Or.inl trivial) fun c h => by cases h
    | batch docs cursorId =>
      unfold expected
      by_cases hend : docs = [] ∨ cursorId = none ∨ 0 < limit ∧ limit ≤ docs.length
      · rw [if_pos hend]
        refine (yields_single limit (.batch docs cursorId) rest).trans ?_
        by_cases hstops : ∃ c, Response.batch docs cursorId = .batch [] (some c)
        · -- the cursor is given up, and the server has more
          obtain ⟨c, hc⟩ := hstops
          rw [hc]
          exact iff_of_false (not_yields_empty limit c rest) (not_steady_empty limit c rest)
        · have hreaches : 0 < limit ∧ limit ≤ docs.length →
              Reaches limit [Response.batch docs cursorId] := by
            intro hreach
            unfold Reaches
            rw [List.flatMap_singleton]
            exact hreach
          have hlast : cursorId = none ∨ 0 < limit ∧ limit ≤ docs.length := by
            rcases hend with hdocs | hlast
            · refine Or.inl (by_contra fun hopen => hstops ?_)
              obtain ⟨c, hc⟩ := Option.ne_none_iff_exists'.mp hopen
              exact ⟨c, by rw [hdocs, hc]⟩
            · exact hlast
          refine iff_of_true ?_ (steady_of_ends (hlast.imp id hreaches) (not_exists.mp hstops))
          rcases hlast with hclosed | hreach
          · exact Or.inr ⟨[], docs, by rw [hclosed]; rfl⟩
          · exact Or.inl (hreaches hreach)
      · rw [if_neg hend]
        rw [not_or, not_or] at hend
        obtain ⟨hdocs, hopen, hreach⟩ := hend
        have hleft := length_expected (if 0 < limit then limit - docs.length else limit) rest
        have hrest := ih (if 0 < limit then limit - docs.length else limit)
        generalize expected (if 0 < limit then limit - docs.length else limit) rest = next at *
        obtain ⟨given, left, ended⟩ := next
        have hnext : Yields limit (.batch docs cursorId :: rest) (docs ++ given, left, ended) ↔ _ :=
          yields_cons (r := .batch docs cursorId) hreach hopen rfl hleft
        have hsteady := @steady_cons _ _ rest limit _ (.batch docs cursorId) hreach hopen hdocs rfl
        exact hnext.trans (hrest.trans hsteady.symm)

end calls

/-- **The calls give every document once**, whatever the replies are, as long as no batch that the
cursor comes to is empty while the server has more; where one is, they end without a reason. -/
theorem faithful_iff (limit : ℤ) (replies : List (Response D C)) :
    Faithful limit replies (alternate (rounds replies) (.find limit) replies) ↔
      Steady limit replies := by
  have hready : (Cursor.find limit : Cursor D C).Ready :=
    ⟨rfl, ⟨[], rfl⟩, fun h => by cases h⟩
  obtain ⟨heq, hquiet⟩ := alternate_ready hready (le_refl (rounds replies))
  rw [← yields_expected_iff, ← (show _ = expected limit replies from heq)]
  exact ⟨fun h => h.yields, fun h => ⟨h, hquiet⟩⟩

/-- A batch is empty, and the cursor is open. -/
theorem faithful_empty : ¬ Faithful (D := ℕ) 0 [.batch [] (some 7), .batch [1] none]
    (alternate 2 (.find 0) [.batch [] (some 7), .batch [1] none]) := by
  intro h
  exact not_steady_empty 0 7 [.batch [1] none] ((yields_expected_iff 0 _).mp h.yields)

end SkynetEureka.Mongo
