import TreeConsole.Tree.Basic

/-!
# Admin words

What a server of a tree answers to the four-letter words that ask after its state. Words it does
not know are answered with a refusal and are no failure.
-/

namespace TreeConsole.Tree

/-- The name and version a server gives of itself. -/
def serverVersion : String := "treesh-memory-0.1.0"

/-- A number in hexadecimal, with its mark. -/
def hexMarked (n : Nat) : String := "0x" ++ String.ofList (Nat.toDigits 16 n)

/-- The state of the server in a few lines. -/
def summary (t : Tree) : String :=
  "Zookeeper version: " ++ serverVersion ++
    "\nLatency min/avg/max: 0/0/0\nReceived: 0\nSent: 0\nConnections: 1\nOutstanding: 0\nZxid: " ++
    hexMarked t.lastChange ++ "\nMode: standalone\nNode count: " ++ toString t.size ++ "\n"

/-- The answer to an admin word. -/
def answerAdmin (t : Tree) (word : String) : String :=
  if word = "ruok" then "imok"
  else if word = "isro" then "rw"
  else if word = "srvr" then t.summary
  else if word = "stat" then
    t.summary ++ "Clients:\n /127.0.0.1:0[1](queued=0,recved=0,sent=0)\n"
  else if word = "mntr" then
    "zk_version\t" ++ serverVersion ++ "\nzk_server_state\tstandalone\nzk_znode_count\t" ++
      toString t.size ++ "\nzk_approximate_data_size\t" ++ toString t.payloadSize ++
      "\nzk_outstanding_requests\t0\n"
  else if word = "envi" then
    "Environment:\nzookeeper.version=" ++ serverVersion ++
      "\nhost.name=localhost\nos.name=linux\nos.arch=x86_64\n"
  else if word = "conf" then
    "clientPort=2181\ndataDir=memory\ntickTime=2000\nmaxClientCnxns=60\n"
  else if word = "dirs" then
    "datadir_size: " ++ toString t.payloadSize ++ "\nlogdir_size: 0\n"
  else word ++ " is not executed because it is not in the whitelist.\n"

end TreeConsole.Tree
