import SkynetEureka.Lib.Decimal
import SkynetEureka.Crypt.Base64

/-!
# auth_scram_sha1 (mongo.lua)

The client sends `saslStart` with its nonce, takes the nonce, the salt and the number of iterations
from what the server answers, sends its proof, and looks at the signature of the second answer. The
check of the nonce compares `not string.sub(rnonce, 1, 12)`, a boolean, with a string.

The digests are parameters, and so are the functions of base64, which raise (`none`).
-/

namespace SkynetEureka.Mongo

open Lib

/-! ## Digests -/

/-- A digest of SHA-1 -/
abbrev Digest := Fin 20 → UInt8

/-- The bytes of a digest -/
def Digest.bytes (d : Digest) : List UInt8 := List.ofFn d

/-- `crypt.xor_str` of two digests -/
def Digest.xor (d d' : Digest) : Digest := fun i => d i ^^^ d' i

/-- What the client is made of: the functions that it calls, and who it is. `V` are the values of
`conversationId`. -/
structure Client (V : Type) where
  /-- `crypt.hmac_sha1` -/
  hmacSha1 : List UInt8 → List UInt8 → Digest
  /-- `crypt.sha1` -/
  sha1 : List UInt8 → Digest
  /-- `md5.sumhexa` -/
  sumhexa : List UInt8 → List UInt8
  base64encode : List UInt8 → List UInt8
  base64decode : List UInt8 → Option (List UInt8)
  /-- The limit of a loop for this text -/
  tonumber : List UInt8 → Option ℤ
  /-- The value can be a part of a command. -/
  encodable : V → Bool
  /-- What `crypt.randomkey` gives -/
  randomkey : List UInt8
  username : List UInt8
  password : List UInt8

/-- What of a reply is read -/
structure Reply (V : Type) where
  /-- `r.ok == 1` -/
  ok : Bool
  conversationId : V
  /-- `none` when it is not a string -/
  payload : Option (List UInt8)
  done : Bool

/-- The commands of the conversation -/
inductive Command (V : Type) where
  | saslStart (payload : List UInt8)
  | saslContinue (conversationId : V) (payload : List UInt8)

/-- How the function ends: it returns, it raises, or it still waits for a reply. -/
inductive Outcome where
  | returns (b : Bool)
  | raises
  | waits
deriving DecidableEq

/-- What the client has sent, and how the function ends -/
structure Transcript (V : Type) where
  sent : List (Command V)
  outcome : Outcome

/-! ## string.gmatch(parsed_s, "(%w+)=([^,]*)") -/

/-- `%w` -/
def alphanumeric (c : UInt8) : Bool :=
  isDigit c || (65 ≤ c && c ≤ 90) || (97 ≤ c && c ≤ 122)

/-- The pairs that are found from a place of the text on. `%w+` takes all that it can, and where no
`=` follows, fewer characters do not help. Each round takes a character at least. -/
def pairsFrom : ℕ → List UInt8 → List (List UInt8 × List UInt8)
  | 0, _ => []
  | _, [] => []
  | fuel + 1, c :: s =>
    let key := (c :: s).takeWhile alphanumeric
    match (c :: s).dropWhile alphanumeric with
    | 61 :: value =>
      if key = [] then pairsFrom fuel s
      else (key, value.takeWhile (· ≠ 44)) :: pairsFrom fuel (value.dropWhile (· ≠ 44))
    | _ => pairsFrom fuel s

/-- `parsed_t[k]`: a later pair has replaced an earlier one. -/
def parsed (s k : List UInt8) : Option (List UInt8) := (pairsFrom s.length s).reverse.lookup k

/-! ## The client -/

/-- `string.gsub(s, c, t)` for a character -/
def gsub (s : List UInt8) (c : UInt8) (t : List UInt8) : List UInt8 :=
  s.flatMap fun x => if x = c then t else [x]

/-- A value of Lua, of the kinds that the check of the nonce compares -/
inductive Value where
  | boolean (b : Bool)
  | string (s : List UInt8)
deriving DecidableEq

/-- `not` -/
def Value.not : Value → Value
  | .boolean b => .boolean !b
  | .string _ => .boolean false

namespace Client

variable {V : Type} (client : Client V)

/-- The rounds of `salt_password`, where `inter` is the last digest -/
def saltRounds (password : List UInt8) : ℕ → Digest → Digest → Digest
  | 0, _, output => output
  | n + 1, inter, output =>
    let inter := client.hmacSha1 password inter.bytes
    saltRounds password n inter (output.xor inter)

/-- `salt_password` -/
def saltPassword (password salt : List UInt8) (iter : ℤ) : Digest :=
  let output := client.hmacSha1 password (salt ++ [0, 0, 0, 1])
  client.saltRounds password (iter - 1).toNat output output

/-- `user` -/
def user : List UInt8 :=
  gsub (gsub client.username 61 "=3D".toUTF8.toList) 44 "=2C".toUTF8.toList

/-- `nonce` -/
def nonce : List UInt8 := client.base64encode client.randomkey

/-- `first_bare` -/
def firstBare : List UInt8 :=
  "n=".toUTF8.toList ++ client.user ++ ",r=".toUTF8.toList ++ client.nonce

/-- `sasl_start_payload` -/
def saslStartPayload : List UInt8 :=
  client.base64encode ("n,,".toUTF8.toList ++ client.firstBare)

/-- `crypt.base64decode(r['payload'])` -/
def text (r : Reply V) : Option (List UInt8) := r.payload.bind client.base64decode

/-- `rnonce`, which has to be a string -/
def rnonce (parsedS : List UInt8) : Option (List UInt8) := parsed parsedS ['r'.toUInt8]

/-- `not string.sub(rnonce, 1, 12) == nonce` -/
def refuses (rnonce : List UInt8) : Bool :=
  (Value.string (rnonce.take 12)).not = Value.string client.nonce

/-- `pbkdf2_key` -/
def pbkdf2Key : List UInt8 :=
  client.sumhexa (client.username ++ ":mongo:".toUTF8.toList ++ client.password)

/-- `salted_pass`: the salt has to be a text of base64, and the iterations a number. -/
def saltedPass (parsedS : List UInt8) : Option Digest := do
  let salt ← parsed parsedS ['s'.toUInt8]
  let salt ← client.base64decode salt
  let iterations ← parsed parsedS ['i'.toUInt8]
  let iterations ← client.tonumber iterations
  some (client.saltPassword client.pbkdf2Key salt iterations)

/-- `without_proof` -/
def withoutProof (rnonce : List UInt8) : List UInt8 := "c=biws,r=".toUTF8.toList ++ rnonce

/-- `auth_msg` -/
def authMsg (parsedS rnonce : List UInt8) : List UInt8 :=
  client.firstBare ++ [44] ++ parsedS ++ [44] ++ withoutProof rnonce

/-- `client_final` -/
def clientFinal (parsedS rnonce : List UInt8) (saltedPass : Digest) : List UInt8 :=
  let clientKey := client.hmacSha1 saltedPass.bytes "Client Key".toUTF8.toList
  let storedKey := client.sha1 clientKey.bytes
  let clientSig := client.hmacSha1 storedKey.bytes (client.authMsg parsedS rnonce)
  let clientProof := "p=".toUTF8.toList ++ client.base64encode (clientKey.xor clientSig).bytes
  client.base64encode (withoutProof rnonce ++ [44] ++ clientProof)

/-- `server_sig` -/
def serverSig (parsedS rnonce : List UInt8) (saltedPass : Digest) : List UInt8 :=
  let serverKey := client.hmacSha1 saltedPass.bytes "Server Key".toUTF8.toList
  client.base64encode (client.hmacSha1 serverKey.bytes (client.authMsg parsedS rnonce)).bytes

/-- A value in a command has to be one that BSON has. -/
def encodes : Command V → Bool
  | .saslStart _ => true
  | .saslContinue conversationId _ => client.encodable conversationId

/-- `self:runCommand`, and what comes behind it; `none` for a request that raises. -/
def runCommand (command : Command V) (replies : List (Option (Reply V)))
    (next : Reply V → List (Option (Reply V)) → Transcript V) : Transcript V :=
  if client.encodes command then
    match replies with
    | [] => ⟨[command], .waits⟩
    | none :: _ => ⟨[command], .raises⟩
    | some r :: replies =>
      let transcript := next r replies
      ⟨command :: transcript.sent, transcript.outcome⟩
  else ⟨[], .raises⟩

/-- The end of the function, when the signature is right -/
def complete (conversationId : V) (r : Reply V) (replies : List (Option (Reply V))) :
    Transcript V :=
  if r.done then ⟨[], .returns true⟩
  else client.runCommand (.saslContinue conversationId []) replies fun r _ =>
    ⟨[], .returns (r.ok && r.done)⟩

/-- The second answer -/
def verify (conversationId : V) (serverSig : List UInt8) (r : Reply V)
    (replies : List (Option (Reply V))) : Transcript V :=
  if r.ok then
    match client.text r with
    | none => ⟨[], .raises⟩
    | some parsedS =>
      if parsed parsedS ['v'.toUInt8] = some serverSig then
        client.complete conversationId r replies
      else ⟨[], .returns false⟩
  else ⟨[], .returns false⟩

/-- The first answer -/
def prove (r : Reply V) (replies : List (Option (Reply V))) : Transcript V :=
  if r.ok then
    match client.text r with
    | none => ⟨[], .raises⟩
    | some parsedS =>
      match rnonce parsedS with
      | none => ⟨[], .raises⟩
      | some rnonce =>
        if client.refuses rnonce then ⟨[], .returns false⟩
        else
          match client.saltedPass parsedS with
          | none => ⟨[], .raises⟩
          | some saltedPass =>
            client.runCommand
              (.saslContinue r.conversationId (client.clientFinal parsedS rnonce saltedPass)) replies
              (client.verify r.conversationId (client.serverSig parsedS rnonce saltedPass))
  else ⟨[], .returns false⟩

/-- `auth_scram_sha1` against a server that sends these replies -/
def authScramSha1 (replies : List (Option (Reply V))) : Transcript V :=
  client.runCommand (.saslStart client.saslStartPayload) replies client.prove

/-! ## The server that is accepted -/

/-- The first answer has this text and this nonce, and the salt and the iterations for this salted
password. -/
structure FirstMessage (replies : List (Option (Reply V))) (r : Reply V)
    (parsedS rnonce : List UInt8) (saltedPass : Digest) : Prop where
  reply : replies[0]? = some (some r)
  text : client.text r = some parsedS
  nonce : Client.rnonce parsedS = some rnonce
  salted : client.saltedPass parsedS = some saltedPass

/-- The second answer has the signature of the server, and the conversation is done with it, or with
the third one. -/
def FinalMessage (replies : List (Option (Reply V))) (signature : List UInt8) : Prop :=
  ∃ r parsedS, replies[1]? = some (some r) ∧ client.text r = some parsedS ∧
    parsed parsedS ['v'.toUInt8] = some signature ∧
    (r.done ∨ ∃ r', replies[2]? = some (some r') ∧ r'.done)

/-- Only the right server is accepted, and the proof is sent to no other one than that with the
nonce. -/
structure AcceptsOnlyRight (replies : List (Option (Reply V))) : Prop where
  accepts : (client.authScramSha1 replies).outcome = .returns true →
    ∃ r parsedS rnonce saltedPass, client.FirstMessage replies r parsedS rnonce saltedPass ∧
      client.nonce <+: rnonce ∧
      client.FinalMessage replies (client.serverSig parsedS rnonce saltedPass)
  proves : ∀ r parsedS rnonce saltedPass, client.FirstMessage replies r parsedS rnonce saltedPass →
    .saslContinue r.conversationId (client.clientFinal parsedS rnonce saltedPass) ∈
      (client.authScramSha1 replies).sent → client.nonce <+: rnonce

/-- A first answer that is good enough for the proof has the nonce of the client. -/
def NonceHolds (replies : List (Option (Reply V))) : Prop :=
  ∀ r parsedS rnonce saltedPass, client.FirstMessage replies r parsedS rnonce saltedPass →
    r.ok → client.encodable r.conversationId → client.nonce <+: rnonce

/-! ## The conversation -/

section conversation

variable {client} {replies : List (Option (Reply V))} {r : Reply V}
  {parsedS nonce signature : List UInt8} {saltedPass : Digest} {conversationId : V}

/-- `not` makes a boolean of the nonce, so no nonce is refused. -/
theorem refuses_eq_false (nonce : List UInt8) : client.refuses nonce = false := by
  unfold refuses
  apply decide_eq_false
  intro heq
  cases heq

/-- A function that returns behind a command has got a reply. -/
theorem runCommand_returns {command : Command V} {b : Bool}
    {next : Reply V → List (Option (Reply V)) → Transcript V}
    (h : (client.runCommand command replies next).outcome = .returns b) :
    client.encodes command = true ∧
      ∃ r rest, replies = some r :: rest ∧ (next r rest).outcome = .returns b := by
  unfold runCommand at h
  by_cases hencodes : client.encodes command = true
  · rw [if_pos hencodes] at h
    refine ⟨hencodes, ?_⟩
    match replies with
    | [] => cases h
    | none :: _ => cases h
    | some r :: rest => exact ⟨r, rest, rfl, h⟩
  · rw [if_neg hencodes] at h
    cases h

theorem runCommand_cons {command : Command V} {rest : List (Option (Reply V))}
    {next : Reply V → List (Option (Reply V)) → Transcript V}
    (h : client.encodes command = true) :
    (client.runCommand command (some r :: rest) next).sent = command :: (next r rest).sent := by
  unfold runCommand
  rw [if_pos h]

/-- A command is sent before its reply is there. -/
theorem mem_sent_runCommand {command : Command V}
    {next : Reply V → List (Option (Reply V)) → Transcript V}
    (h : client.encodes command = true) :
    command ∈ (client.runCommand command replies next).sent := by
  unfold runCommand
  rw [if_pos h]
  match replies with
  | [] => exact List.mem_cons_self
  | none :: _ => exact List.mem_cons_self
  | some r :: rest => exact List.mem_cons_self

theorem encodes_of_sent {command command' : Command V}
    {next : Reply V → List (Option (Reply V)) → Transcript V}
    (h : command' ∈ (client.runCommand command replies next).sent) :
    client.encodes command = true := by
  by_contra hno
  unfold runCommand at h
  rw [if_neg hno] at h
  cases h

/-- What is sent behind the first command -/
theorem mem_sent_later {command command' : Command V}
    {next : Reply V → List (Option (Reply V)) → Transcript V}
    (h : command' ∈ (client.runCommand command replies next).sent) (hne : command' ≠ command) :
    ∃ r rest, replies = some r :: rest ∧ command' ∈ (next r rest).sent := by
  unfold runCommand at h
  split at h
  · match replies with
    | [] => exact absurd (List.mem_singleton.mp h) hne
    | none :: _ => exact absurd (List.mem_singleton.mp h) hne
    | some r :: rest => exact ⟨r, rest, rfl, (List.mem_cons.mp h).resolve_left hne⟩
  · cases h

/-- The second answer that is accepted -/
theorem verify_returns {rest : List (Option (Reply V))}
    (h : (client.verify conversationId signature r rest).outcome = .returns true) :
    ∃ parsedS, client.text r = some parsedS ∧ parsed parsedS ['v'.toUInt8] = some signature ∧
      (r.done ∨ ∃ r', rest[0]? = some (some r') ∧ r'.done) := by
  unfold verify at h
  split at h
  · cases htext : client.text r with
    | none =>
      rw [htext] at h
      cases h
    | some parsedS =>
      rw [htext] at h
      change (if _ then _ else _ : Transcript V).outcome = _ at h
      split at h
      · rename_i hsignature
        refine ⟨parsedS, rfl, hsignature, ?_⟩
        unfold complete at h
        split at h
        · rename_i hdone
          exact Or.inl hdone
        · obtain ⟨-, r', rest', hrest, hlast⟩ := runCommand_returns h
          rw [Outcome.returns.injEq, Bool.and_eq_true] at hlast
          exact Or.inr ⟨r', by rw [hrest]; rfl, hlast.2⟩
      · cases h
  · cases h

theorem saltedPass_eq {salt salt' i : List UInt8} {iterations : ℤ}
    (hs : parsed parsedS ['s'.toUInt8] = some salt) (hsalt : client.base64decode salt = some salt')
    (hi : parsed parsedS ['i'.toUInt8] = some i) (hiterations : client.tonumber i = some iterations) :
    client.saltedPass parsedS = some (client.saltPassword client.pbkdf2Key salt' iterations) := by
  unfold saltedPass
  simp only [hs, hsalt, hi, hiterations, Option.bind_eq_bind, Option.bind_some]

/-- The client goes on behind a first answer with all that the proof needs. -/
theorem prove_eq (rest : List (Option (Reply V))) (hok : r.ok = true)
    (htext : client.text r = some parsedS) (hnonce : rnonce parsedS = some nonce)
    (hsalted : client.saltedPass parsedS = some saltedPass) :
    client.prove r rest = client.runCommand
      (.saslContinue r.conversationId (client.clientFinal parsedS nonce saltedPass)) rest
      (client.verify r.conversationId (client.serverSig parsedS nonce saltedPass)) := by
  unfold prove
  rw [if_pos hok, htext]
  simp only [hnonce, refuses_eq_false, Bool.false_eq_true, if_false, hsalted]

/-- Otherwise it ends. -/
theorem prove_cases (r : Reply V) (rest : List (Option (Reply V))) :
    (∃ parsedS nonce saltedPass, r.ok = true ∧ client.text r = some parsedS ∧
      rnonce parsedS = some nonce ∧ client.saltedPass parsedS = some saltedPass) ∨
    (client.prove r rest).sent = [] ∧ (client.prove r rest).outcome ≠ .returns true := by
  have hends : ∀ outcome : Outcome, outcome ≠ .returns true →
      client.prove r rest = ⟨[], outcome⟩ →
      (client.prove r rest).sent = [] ∧ (client.prove r rest).outcome ≠ .returns true := by
    intro outcome hne heq
    rw [heq]
    exact ⟨rfl, hne⟩
  have hraises : Outcome.raises ≠ .returns true := by decide
  by_cases hok : r.ok = true
  · cases htext : client.text r with
    | none =>
      refine Or.inr (hends .raises hraises ?_)
      unfold prove
      rw [if_pos hok, htext]
    | some parsedS =>
      cases hnonce : rnonce parsedS with
      | none =>
        refine Or.inr (hends .raises hraises ?_)
        unfold prove
        rw [if_pos hok, htext]
        simp only [hnonce]
      | some nonce =>
        cases hsalted : client.saltedPass parsedS with
        | none =>
          refine Or.inr (hends .raises hraises ?_)
          unfold prove
          rw [if_pos hok, htext]
          simp only [hnonce, refuses_eq_false, Bool.false_eq_true, if_false, hsalted]
        | some saltedPass => exact Or.inl ⟨parsedS, nonce, saltedPass, hok, rfl, hnonce, hsalted⟩
  · refine Or.inr (hends (.returns false) (by decide) ?_)
    unfold prove
    rw [if_neg hok]

/-- A good first answer gets the proof. -/
theorem proof_sent (h : client.FirstMessage replies r parsedS nonce saltedPass)
    (hok : r.ok = true) (hencodable : client.encodable r.conversationId = true) :
    .saslContinue r.conversationId (client.clientFinal parsedS nonce saltedPass) ∈
      (client.authScramSha1 replies).sent := by
  have hreply := h.reply
  match replies with
  | [] => cases hreply
  | reply :: rest =>
    cases hreply
    unfold authScramSha1
    rw [runCommand_cons rfl]
    apply List.mem_cons_of_mem
    rw [prove_eq rest hok h.text h.nonce h.salted]
    exact mem_sent_runCommand hencodable

/-- The function keeps to the right server exactly when each first answer with which it goes on has
the nonce of the client. -/
theorem acceptsOnlyRight_iff : client.AcceptsOnlyRight replies ↔ client.NonceHolds replies := by
  constructor
  · intro h r parsedS nonce saltedPass hfirst hok hencodable
    exact h.proves r parsedS nonce saltedPass hfirst (proof_sent hfirst hok hencodable)
  · intro h
    constructor
    · intro htrue
      obtain ⟨-, r, rest, hreplies, hprove⟩ := runCommand_returns htrue
      rcases @prove_cases _ client r rest with hgood | ⟨-, hfalse⟩
      · obtain ⟨parsedS, nonce, saltedPass, hok, htext, hnonce, hsalted⟩ := hgood
        have hfirst : client.FirstMessage replies r parsedS nonce saltedPass :=
          ⟨by rw [hreplies]; rfl, htext, hnonce, hsalted⟩
        rw [prove_eq rest hok htext hnonce hsalted] at hprove
        obtain ⟨hencodable, r', rest', hrest, hverify⟩ := runCommand_returns hprove
        obtain ⟨final, hfinal, hsignature, hdone⟩ := verify_returns hverify
        refine ⟨r, parsedS, nonce, saltedPass, hfirst,
          h r parsedS nonce saltedPass hfirst hok hencodable, r', final, ?_, hfinal,
          hsignature, ?_⟩
        · rw [hreplies, hrest]
          rfl
        · rw [hreplies, hrest]
          exact hdone
      · exact absurd hprove hfalse
    · intro r parsedS nonce saltedPass hfirst hsent
      obtain ⟨r', rest, hreplies, hsent⟩ := mem_sent_later hsent fun heq => by cases heq
      have hreply := hfirst.reply
      rw [hreplies] at hreply
      cases hreply
      rcases @prove_cases _ client r rest with hgood | ⟨hnone, -⟩
      · obtain ⟨-, -, -, hok, -⟩ := hgood
        rw [prove_eq rest hok hfirst.text hfirst.nonce hfirst.salted] at hsent
        exact h r parsedS nonce saltedPass hfirst hok (encodes_of_sent hsent)
      · rw [hnone] at hsent
        cases hsent

end conversation

end Client

/-! ## A stranger -/

/-- A client with base64 as the library has it -/
def base64Client (hmacSha1 : List UInt8 → List UInt8 → Digest) (sha1 : List UInt8 → Digest)
    (sumhexa : List UInt8 → List UInt8) : Client Unit where
  hmacSha1 := hmacSha1
  sha1 := sha1
  sumhexa := sumhexa
  base64encode text := (Crypt.lb64encode (fun _ => 0) text).toOption.getD []
  base64decode text := (Crypt.lb64decode text).toOption
  tonumber := integer?
  encodable _ := true
  randomkey := [1, 0, 0, 0, 0, 0, 0, 0]
  username := "user".toUTF8.toList
  password := "pencil".toUTF8.toList

/-- "r=fyko+d2lbbFg,s=QSXCR+Q6sek8bf92,i=2" -/
def strangeText : List UInt8 :=
  [114, 61, 102, 121, 107, 111, 43, 100, 50, 108, 98, 98, 70, 103, 44, 115, 61, 81, 83, 88, 67, 82,
    43, 81, 54, 115, 101, 107, 56, 98, 102, 57, 50, 44, 105, 61, 50]

/-- The answer with this text, in base64 -/
def strangeReply : Reply Unit where
  ok := true
  conversationId := ()
  payload := some [99, 106, 49, 109, 101, 87, 116, 118, 75, 50, 81, 121, 98, 71, 74, 105, 82, 109,
    99, 115, 99, 122, 49, 82, 85, 49, 104, 68, 85, 105, 116, 82, 78, 110, 78, 108, 97, 122, 104,
    105, 90, 106, 107, 121, 76, 71, 107, 57, 77, 103, 61, 61]
  done := false

/-- A server that does not know the nonce of the client gets the proof. -/
theorem accepts_stranger : ¬ ∃ hmacSha1 sha1 sumhexa,
    (base64Client hmacSha1 sha1 sumhexa).AcceptsOnlyRight [some strangeReply] := by
  rintro ⟨hmacSha1, sha1, sumhexa, h⟩
  have htext : (Crypt.lb64decode (strangeReply.payload.getD [])).toOption = some strangeText := by
    decide +kernel
  have hnonce : parsed strangeText ['r'.toUInt8] =
      some [102, 121, 107, 111, 43, 100, 50, 108, 98, 98, 70, 103] := by decide
  have hs : parsed strangeText ['s'.toUInt8] =
      some [81, 83, 88, 67, 82, 43, 81, 54, 115, 101, 107, 56, 98, 102, 57, 50] := by decide
  have hsalt : (Crypt.lb64decode
      [81, 83, 88, 67, 82, 43, 81, 54, 115, 101, 107, 56, 98, 102, 57, 50]).toOption =
      some [65, 37, 194, 71, 228, 58, 177, 233, 60, 109, 255, 118] := by decide
  have hi : parsed strangeText ['i'.toUInt8] = some [50] := by decide
  have hiterations : integer? [50] = some 2 := by decide
  have hsalted := @Client.saltedPass_eq _ (base64Client hmacSha1 sha1 sumhexa) _ _ _ _ _ hs hsalt
    hi hiterations
  have hfirst : (base64Client hmacSha1 sha1 sumhexa).FirstMessage [some strangeReply]
      strangeReply strangeText _ _ := ⟨rfl, htext, hnonce, hsalted⟩
  have hfront := h.proves _ _ _ _ hfirst (Client.proof_sent hfirst rfl rfl)
  have hown : (Crypt.lb64encode (fun _ => 0) [1, 0, 0, 0, 0, 0, 0, 0]).toOption.getD [] =
      [65, 81, 65, 65, 65, 65, 65, 65, 65, 65, 65, 61] := by decide
  have hclient : (base64Client hmacSha1 sha1 sumhexa).nonce =
      (Crypt.lb64encode (fun _ => 0) [1, 0, 0, 0, 0, 0, 0, 0]).toOption.getD [] := by
    simp only [Client.nonce, base64Client]
  rw [hclient, hown] at hfront
  exact absurd hfront (by decide)

end SkynetEureka.Mongo
