import HvmlFpm.Launcher.Identity
import HvmlFpm.Launcher.Socket

/-!
# The launcher

`main` of `hvml-fpm.c` up to its first call of `fcgi_spawn_connection`. What `getopt` returns is a list of
options.
-/

namespace HvmlFpm.Launcher
open Library

inductive Opt
  | A (hvmlApp : CString)
  | i (initScript : CString)
  | q (scriptQuery : CString)
  | d (fcgiDir : CString)
  | a (addr : CString)
  | p (port : CString)
  | F (forkCount : CString)
  | e (maxExecutions : CString)
  | b (backlog : CString)
  | s (unixsocket : CString)
  | c (changeroot : CString)
  | u (username : CString)
  | g (groupname : CString)
  | U (sockusername : CString)
  | G (sockgroupname : CString)
  | S
  | M (sockmode : CString)
  | P (pidFile : CString)
  | v
  | h
  | other

structure Settings where
  hvmlApp : Option CString
  initScript : Option CString
  scriptQuery : Option CString
  changeroot : Option CString
  username : Option CString
  groupname : Option CString
  unixsocket : Option CString
  pidFile : Option CString
  sockusername : Option CString
  sockgroupname : Option CString
  fcgiDir : Option CString
  addr : Option CString
  port : Nat
  sockmode : Nat
  forkCount : Int
  maxExecutions : Int
  backlog : Int
  sockbeforechroot : Bool

structure Env where
  iAmRoot : Bool
  issetugid : Bool
  umask : Nat
  db : Databases
  inet : Inet

/-- `(S_IRUSR | S_IWUSR | S_IRGRP | S_IWGRP) & ~read_umask()`. -/
def defaultMode (umask : Nat) : Nat := 432 - (432 &&& umask)

def Settings.default (umask : Nat) : Settings :=
  { hvmlApp := none, initScript := none, scriptQuery := none, changeroot := none, username := none
    groupname := none, unixsocket := none, pidFile := none, sockusername := none, sockgroupname := none
    fcgiDir := none, addr := none, port := 0, sockmode := defaultMode umask, forkCount := 0
    maxExecutions := 1000, backlog := 1024, sockbeforechroot := false }

def parseOption (iAmRoot : Bool) (s : Settings) : Opt → Except Int Settings
  | .A hvmlApp => .ok { s with hvmlApp := some hvmlApp }
  | .i initScript => .ok { s with initScript := some initScript }
  | .q scriptQuery => .ok { s with scriptQuery := some scriptQuery }
  | .d fcgiDir => .ok { s with fcgiDir := some fcgiDir }
  | .a addr => .ok { s with addr := some addr }
  | .p port => if (strtol port 10).2 ≠ [] then .error (-1) else .ok { s with port := toUnsigned 16 (strtol port 10).1 }
  | .F forkCount => .ok { s with forkCount := toInt (strtol forkCount 10).1 }
  | .e maxExecutions => .ok { s with maxExecutions := toInt (strtol maxExecutions 10).1 }
  | .b backlog => .ok { s with backlog := toInt (strtol backlog 10).1 }
  | .s unixsocket => .ok { s with unixsocket := some unixsocket }
  | .c changeroot => .ok (if iAmRoot then { s with changeroot := some changeroot } else s)
  | .u username => .ok (if iAmRoot then { s with username := some username } else s)
  | .g groupname => .ok (if iAmRoot then { s with groupname := some groupname } else s)
  | .U sockusername => .ok (if iAmRoot then { s with sockusername := some sockusername } else s)
  | .G sockgroupname => .ok (if iAmRoot then { s with sockgroupname := some sockgroupname } else s)
  | .S => .ok (if iAmRoot then { s with sockbeforechroot := true } else s)
  | .M sockmode => .ok { s with sockmode := toUnsigned 32 (strtol sockmode 8).1 }
  | .P pidFile => .ok { s with pidFile := some pidFile }
  | .v => .error 0
  | .h => .error 0
  | .other => .error (-1)

def parseOptions (env : Env) (opts : List Opt) : Except Int Settings :=
  opts.foldlM (parseOption env.iAmRoot) (.default env.umask)

def acceptable (env : Env) (s : Settings) : Bool :=
  s.hvmlApp.isSome && !(s.port == 0 && s.unixsocket.isNone) && !(s.port != 0 && s.unixsocket.isSome) &&
    !(s.unixsocket.any fun path => decide (sunPathSize - 1 < path.length)) && !(!env.iAmRoot && env.issetugid)

/-- `none` inside is a `pid_fd` of -1. -/
def openPidFile : Option CString → Launch (Option (Option Nat))
  | none => .done (some none)
  | some pidFile =>
      .call (.open pidFile true) fun
        | .descriptor fd => .done (some (some fd))
        | .failed => .done none
        | .alreadyExists =>
            .call (.stat pidFile) fun (regular : Option Bool) =>
              if regular = some true then
                .call (.open pidFile false) fun
                  | .descriptor fd => .done (some (some fd))
                  | _ => .done none
              else .done none

def orReturn (c : Syscall) (answer : Answer c → Bool) : Launch (Option Unit) :=
  .call c fun r => .done (if answer r then some () else none)

def setGroups (identity : Identity) : Launch (Option Unit) :=
  if identity.gid ≠ 0 then
    (orReturn (.setgid identity.gid) id).andThen fun _ =>
      (orReturn .setgroups id).andThen fun _ =>
        match identity.username with
        | some username => orReturn (.initgroups username identity.gid) id
        | none => .done (some ())
  else .done (some ())

def changeRoot : Option CString → Launch (Option Unit)
  | some changeroot => (orReturn (.chroot changeroot) id).andThen fun _ => orReturn (.chdir (.lit "/")) id
  | none => .done (some ())

def dropRoot (uid : Nat) : Launch (Option Unit) :=
  if uid ≠ 0 then orReturn (.setuid uid) id else .done (some ())

def bindFor (env : Env) (s : Settings) (uid gid : Nat) : Launch (Option Nat) :=
  bindSocket env.inet s.addr s.port s.unixsocket uid gid s.sockmode s.backlog

/-- `if (0 == sockuid) sockuid = uid;` -/
def orElseId (sockId id : Nat) : Nat := if sockId = 0 then id else sockId

def rootSetUp (env : Env) (s : Settings) (identity sock : Identity) : Launch (Option Nat) :=
  let listen := bindFor env s (orElseId sock.uid identity.uid) (orElseId sock.gid identity.gid)
  let early : Launch (Option (Option Nat)) :=
    if s.sockbeforechroot then listen.andThen fun fd => .done (some (some fd)) else .done (some none)
  early.andThen fun bound =>
    (setGroups identity).andThen fun _ =>
      (changeRoot s.changeroot).andThen fun _ =>
        (match bound with | some fd => Program.done (some fd) | none => listen).andThen fun fd =>
          (dropRoot identity.uid).andThen fun _ => .done (some fd)

def setUp (env : Env) (s : Settings) : Launch (Option Nat) :=
  if env.iAmRoot then
    match findUserGroup env.db s.username s.groupname, findUserGroup env.db s.sockusername s.sockgroupname with
    | some identity, some sock => rootSetUp env s (identity.behind env.db s.username s.sockusername) sock
    | _, _ => .done none
  else bindFor env s 0 0

def changeDir : Option CString → Launch (Option Unit)
  | some fcgiDir => orReturn (.chdir fcgiDir) id
  | none => .done (some ())

def checkScript : Option CString → Launch (Option Unit)
  | some initScript => orReturn (.accessRead initScript) id
  | none => .done (some ())

inductive Daemonized
  | failed | parent | daemon
deriving DecidableEq

def dupAll (fd : Nat) : List Nat → Launch (Option Unit)
  | [] => .done (some ())
  | target :: targets => (orReturn (.dup2 fd target) id).andThen fun _ => dupAll fd targets

def daemonize : Launch Daemonized :=
  .call .openNull fun
    | none => .done .failed
    | some fd =>
        (dupAll fd [0, 1, 2]).bind fun duped =>
          .call (.close fd) fun _ =>
            match duped with
            | none => .done .failed
            | some _ =>
                .call .fork fun
                  | .failed => .done .failed
                  | .parent => .done .parent
                  | .child => .call .setsid fun (ok : Bool) => .done (if ok then .daemon else .failed)

inductive Ending
  | returned (code : Int)
  | exited
  | spawns (fcgiFd : Nat) (pidFd : Option Nat) (settings : Settings)

def prepare (env : Env) (s : Settings) : Launch (Option (Option Nat × Nat)) :=
  (openPidFile s.pidFile).andThen fun pidFd =>
    (setUp env s).andThen fun fcgiFd =>
      (changeDir s.fcgiDir).andThen fun _ =>
        (checkScript s.initScript).andThen fun _ => .done (some (pidFd, fcgiFd))

def launch (env : Env) (s : Settings) : Launch Ending :=
  (prepare env s).bind fun
    | none => .done (.returned (-1))
    | some (pidFd, fcgiFd) =>
        if 0 < s.forkCount then
          daemonize.bind fun
            | .failed => .done (.returned (-1))
            | .parent => .done .exited
            | .daemon => .done (.spawns fcgiFd pidFd s)
        else .done (.spawns fcgiFd pidFd s)

def main (env : Env) (argc : Nat) (opts : List Opt) : Launch Ending :=
  if argc < 2 then .done (.returned (-1))
  else
    match parseOptions env opts with
    | .error code => .done (.returned code)
    | .ok s => if acceptable env s then launch env s else .done (.returned (-1))

end HvmlFpm.Launcher
