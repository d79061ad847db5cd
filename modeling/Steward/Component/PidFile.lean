import Steward.Component.Machine

set_option autoImplicit false

namespace Steward.PidFile

def kindName : String := "pidfile"

def pathIn (config : Section) : Act Machine Path :=
  Act.load' (config.fetch "path" fun sec s key => sec.require s key [])

def record? (name : String) : Act Machine (Option PidFile) :=
  return (← Act.world).pidFiles.get? name

def put (name : String) (f : PidFile) : Act Machine Unit :=
  Act.change fun m => { m with pidFiles := m.pidFiles.insert name f }

def drop (name : String) : Act Machine Unit :=
  Act.change fun m => { m with pidFiles := m.pidFiles.erase name }

def write (p : Path) : Act Machine Unit := do
  match p.parent? with
  | some dir => Act.onFiles ("创建目录失败: " ++ dir.text) fun t => t.makeDirectories dir
  | none => pure ()
  let m ← Act.world
  let content := (toString m.processId ++ "\n").toUTF8
  Act.onFiles ("写入进程号文件失败: " ++ p.text) fun t => t.write p content m.calendar

def remove (p : Path) : Act Machine Unit :=
  Act.onFiles ("删除进程号文件失败: " ++ p.text) fun t =>
    match t.removeFile p with
    | .error .notFound => .ok t
    | result => result

def create (name : String) (config : Section) : Act Machine Unit := do
  put name ⟨← pathIn config, false⟩

def start (name : String) : Act Machine Unit := do
  match ← record? name with
  | none => throw ("组件 " ++ name ++ " 尚未创建")
  | some f =>
    write f.path
    put name { f with written := true }
    Act.log [.info .builtins ("进程号文件已写入: " ++ f.path.text)]

def stop (name : String) : Act Machine Unit := do
  let found ← record? name
  drop name
  match found with
  | some ⟨p, true⟩ =>
    remove p
    Act.log [.info .builtins ("进程号文件已删除: " ++ p.text)]
  | _ => pure ()

def reload (name : String) (config : Section) : Act Machine Unit := do
  let p ← pathIn config
  match ← record? name with
  | none => put name ⟨p, false⟩
  | some old =>
    if old.written && !old.path.sameAs p then
      write p
      remove old.path
      Act.log [.info .builtins ("进程号文件迁移: " ++ old.path.text ++ " -> " ++ p.text)]
      put name ⟨p, true⟩
    else put name ⟨p, old.written⟩

def help : HelpDoc :=
  ({ description := "启动时写入进程号文件，停止时删除" } : HelpDoc).required "path" "path"
    "进程号文件路径"

def direct : Direct Machine := ⟨create, reload, help⟩

end Steward.PidFile
