import Panackelty.Vm.LocalEffects
import Panackelty.Vm.Slicing
import Panackelty.Vm.TaskTree
import Panackelty.Http.RequestContract
import Panackelty.Http.Registration
import Panackelty.Http.RoutedContract
import Panackelty.Packages.Versions
import Panackelty.Packages.TarTree
import Panackelty.Vm.BigintWidth
import Panackelty.Vm.FaultContract
import Panackelty.Http.ResponseWire
import Panackelty.Compiler.ModuleGraph
import Panackelty.Compiler.CorePruning
import Panackelty.Compiler.EmitterHeights
import Panackelty.Vm.Collections
import Panackelty.Vm.Render
import Panackelty.Stdlib.SortBy
import Panackelty.Stdlib.Text
import Panackelty.Compiler.Literals
