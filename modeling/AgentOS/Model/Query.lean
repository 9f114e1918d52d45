import AgentOS.Model.Context
import AgentOS.Model.FileIndex

/-!
# File queries

`kernel/agent_fs.c`: `file_query_parse`, the two loops of `agentfs_tool_query_file` (over the
chain of the first condition, or over the whole table) and the text of its answer. A text
buffer is its content; `buf_putc` drops what does not fit.
-/

namespace AgentOS

def agentFileQueryCondMax : ℕ := 6
def agentFileResultMax : ℕ := 3

/-! ### Parameters -/

/-- `struct agent_file_query_cond`. -/
structure AgentFileQueryCond where
  key : List UInt8
  value : List UInt8
  deriving DecidableEq, Repr

/-- What `file_query_parse` stores. -/
structure FileQuery where
  conds : List AgentFileQueryCond
  keyword : List UInt8
  forceScan : Bool
  deriving DecidableEq, Repr

/-- One `key=value` of the parameters. -/
def fileQueryTerm (q : FileQuery) (key value : List UInt8) : Option FileQuery :=
  if streq key (lit "keyword") then
    some { q with keyword := safestrcpy value inodeAttrValueMax }
  else if streq key (lit "public") then some q
  else if streq key (lit "mode") then
    some (if streq value (lit "scan") then { q with forceScan := true } else q)
  else if streq key (lit "nonce") then some q
  else if q.conds.length < agentFileQueryCondMax then
    some { q with conds := q.conds ++
      [⟨safestrcpy key inodeAttrKeyMax, safestrcpy value inodeAttrValueMax⟩] }
  else none

/-- `';'` and `'='`. -/
def charSemicolon : UInt8 := 59
def charEquals : UInt8 := 61

/-- The loop of `file_query_parse`. Each round reads a `=`, so the length of the parameters is
fuel enough. -/
def fileQueryParseLoop : ℕ → List UInt8 → FileQuery → Option FileQuery
  | 0, _, q => some q
  | fuel + 1, p, q =>
    let p := p.dropWhile (· == charSemicolon)
    if p = [] then some q
    else
      let key := (p.takeWhile fun b => b != charEquals && b != charSemicolon).take
        (inodeAttrKeyMax - 1)
      match p.drop key.length with
      | [] => none
      | b :: p =>
        if b ≠ charEquals then none
        else
          let value := (p.takeWhile (· != charSemicolon)).take (inodeAttrValueMax - 1)
          let p := p.drop value.length
          match fileQueryTerm q key value with
          | none => none
          | some q =>
            fileQueryParseLoop fuel (if p.head? = some charSemicolon then p.tail else p) q

/-- `file_query_parse`. -/
def fileQueryParse (params : List UInt8) : Option FileQuery :=
  let p := cstr params
  fileQueryParseLoop (p.length + 1) p ⟨[], [], false⟩

/-! ### Matching -/

/-- `str_contains`. -/
def strContains (s needle : List UInt8) : Bool :=
  (cstr needle).isEmpty || (cstr s).tails.any fun t => (cstr needle).isPrefixOf t

/-- `file_meta_matches`. -/
def fileMetaMatches (m : AgentFileMeta) (conds : List AgentFileQueryCond)
    (keyword : List UInt8) : Bool :=
  (conds.all fun c => fileAttrMatch m.attrs c.key c.value) &&
    ((cstr keyword).isEmpty || strContains m.summary keyword)

/-! ### Text -/

/-- `buf_puts` into a buffer of `AGENT_TOOL_RESULT_MAX` bytes: one byte stays for the NUL. -/
def resultPuts (buf s : List UInt8) : List UInt8 := (buf ++ cstr s).take (agentToolResultMax - 1)

/-- `buf_putu`. -/
def resultPutu (buf : List UInt8) (n : ℕ) : List UInt8 := resultPuts buf (decimal n)

/-- `append_file_result`. -/
def appendFileResult (buf : List UInt8) (m : AgentFileMeta) : List UInt8 :=
  let buf := resultPuts (resultPuts buf (lit "\x7bpath=")) m.path
  let buf := m.attrs.foldl (fun buf a =>
    resultPuts (resultPuts (resultPuts (resultPuts buf (lit ",")) a.key) (lit "=")) a.value) buf
  resultPuts (resultPuts (resultPuts buf (lit ",summary=")) m.summary) (lit "\x7d")

/-! ### The loops -/

/-- The variables of the loops, and the files they matched, in order, which nothing reads. -/
structure QueryState where
  buf : List UInt8
  count : ℕ
  indexScanned : ℕ
  matched : List (Fin agentFileMetaMax)
  deriving DecidableEq

def QueryState.init : QueryState := ⟨lit "\x7bstatus=ok,files=[", 0, 0, []⟩

/-- What both loops do with a file: list the first three that match, and count them all. -/
def queryEntry (t : AgentFileIndex) (q : FileQuery) (s : QueryState) (i : Fin agentFileMetaMax) :
    QueryState :=
  let m := t.fileMeta i
  if fileMetaMatches m q.conds q.keyword then
    let buf := if s.count < agentFileResultMax then
      appendFileResult (if 0 < s.count then resultPuts s.buf (lit ",") else s.buf) m else s.buf
    { s with buf := buf, count := s.count + 1, matched := s.matched ++ [i] }
  else s

/-- The body of the indexed loop, for the first condition `c`. -/
def queryPosting (t : AgentFileIndex) (q : FileQuery) (c : AgentFileQueryCond) (s : QueryState)
    (post : Fin agentFilePostingMax) : QueryState :=
  let s := { s with indexScanned := s.indexScanned + 1 }
  let p := t.filePostings post
  if streq p.key c.key = false ∨ streq p.value c.value = false then s
  else
    if h : p.entryIdx < agentFileMetaMax then
      if (t.fileMeta ⟨p.entryIdx, h⟩).used then queryEntry t q s ⟨p.entryIdx, h⟩ else s
    else s

/-- The indexed loop, for the first condition `c`; `none` when the chain never ends. -/
def queryIndexed (t : AgentFileIndex) (q : FileQuery) (c : AgentFileQueryCond) :
    Option QueryState :=
  Chain.fold (fun post => (t.filePostings post).next) (queryPosting t q c) agentFilePostingMax
    (t.fileIndex (fileAttrHash c.key c.value)) QueryState.init

/-- The body of the loop over the table. -/
def queryScanEntry (t : AgentFileIndex) (q : FileQuery) (s : QueryState)
    (i : Fin agentFileMetaMax) : QueryState :=
  if (t.fileMeta i).used then queryEntry t q { s with indexScanned := s.indexScanned + 1 } i
  else s

/-- The loop over the table. -/
def queryScan (t : AgentFileIndex) (q : FileQuery) : QueryState :=
  (List.finRange agentFileMetaMax).foldl (queryScanEntry t q) QueryState.init

/-- The query under `agent_file_lock`, and whether it used the index. -/
def queryRun (t : AgentFileIndex) (q : FileQuery) : Option (QueryState × Bool) :=
  match q.conds with
  | c :: _ =>
    if q.forceScan then some (queryScan t q, false) else (queryIndexed t q c).map fun s => (s, true)
  | [] => some (queryScan t q, false)

/-- `full_scanned`. -/
def fullScanned (t : AgentFileIndex) : ℕ :=
  (List.finRange agentFileMetaMax).countP fun i => (t.fileMeta i).used

/-- The rest of the answer, behind the listed files. -/
def queryAnswer (s : QueryState) (usedIndex forceScan : Bool) (full ticksCost : ℕ) :
    List UInt8 :=
  let buf := resultPutu (resultPuts s.buf (lit "],count=")) s.count
  let buf := resultPutu (resultPuts buf (lit ",used_index=")) (if usedIndex then 1 else 0)
  let buf := resultPutu (resultPuts buf (lit ",index_scanned=")) s.indexScanned
  let buf := resultPutu (resultPuts buf (lit ",full_scanned=")) full
  let buf := resultPutu (resultPuts buf (lit ",ticks_cost=")) ticksCost
  let buf := resultPuts (resultPuts buf (lit ",query_plan="))
    (if usedIndex then lit "index" else lit "scan")
  let buf := resultPuts (resultPuts buf (lit ",plan_reason="))
    (if forceScan then lit "forced_scan" else if usedIndex then lit "indexed_key"
      else lit "no_index_key")
  resultPuts buf (lit "\x7d")

end AgentOS
