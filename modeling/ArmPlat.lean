import ArmPlat.Python.Str
import ArmPlat.Database.Node
import ArmPlat.Database.Lookup
import ArmPlat.Database.Fuel
import ArmPlat.Database.Layered
import ArmPlat.Database.Loop
import ArmPlat.Database.Cycles
import ArmPlat.Database.References
import ArmPlat.Database.Template
import ArmPlat.Menu.Tree
import ArmPlat.Menu.Segments
import ArmPlat.Menu.Prompt
import ArmPlat.Config.Summary
import ArmPlat.Config.Includes
import ArmPlat.Config.Sync
import ArmPlat.Config.Choose
import ArmPlat.Config.Gather
import ArmPlat.Config.Query
import ArmPlat.Shell.Paths
import ArmPlat.Shell.Md5
import ArmPlat.Host.Checks
import ArmPlat.Script.Abort
import ArmPlat.Shell.Fetch
import ArmPlat.Config.Run
import ArmPlat.Script.Qa
